import TicketFlow.Proofs.Timing.Parts
import TicketFlow.Proofs.Timing.Precedence
import TicketFlow.Proofs.Timing.Straying

namespace TicketFlow

/-! A reduction with less known precedes the one with more known.

As long as nothing waits the two do the same in turn, with paired blocks.  Where
something waits the one that knows less leaves a term, and does not follow the
other one into what is known there.  What it does instead, that is reducing the
branches of a conditional or reducing once more what waits, may be rejected: such
a rejection is the only one that the other reduction does not share.
-/

namespace Reduction

open PassM

variable {known more : Store} {made : BlockId → Prop} {pairs : BlockId → BlockId → Prop}
  {early late : Pass Store} {strays : Prop → Compound → Pass Store → Halt → Prop}
  {recurse : Compound → PassM Store Compound} {again : Prop}

/-- The reduction with less known precedes the one with more known, except where it strays. -/
structure Foreruns (known more : Store) (made : BlockId → Prop)
    (strays : Prop → Compound → Pass Store → Halt → Prop)
    (recurse : Compound → PassM Store Compound) :
    Prop extends Lingering known recurse where
  within : known.Within more
  precedes :
    ∀ {pairs : BlockId → BlockId → Prop} {early late : Pass Store} {again : Prop}
    {terms later : Compound}, early.Mirrors known more made pairs late →
    terms.Foreshadows (WaitsIf again known.Waits) pairs later → Precedes known more made
    pairs (strays again terms early) (Compound.Foreshadows known.Waits)
    (recurse terms early) (recurse later late)

/-- The reduction of the term idles, or calls a reduction that strays. -/
def Excuses (waits : Placeholder → Prop) (made : BlockId → Prop)
    (recurse : Compound → PassM Store Compound)
    (strays : Prop → Compound → Pass Store → Halt → Prop) (again : Prop) (term : Term)
    (pass : Pass Store) (reason : Halt) : Prop :=
  Idles waits recurse again term pass reason ∨
    ∃ holder value inner, Calls recurse term pass holder value inner ∧
      strays (holder.elim again made) value inner reason

section Looking

/-- An output known early is the same late; one that is not waits. -/
theorem precedes_resolve (within : known.Within more)
    (mirrors : early.Mirrors known more made pairs late) (placeholder : Placeholder)
    {excused : Halt → Prop} :
    Precedes known more made pairs excused (Compound.Foreshadows known.Waits)
      (resolve placeholder early) (resolve placeholder late) := by
  rw [Store.resolve_run, Store.resolve_run, mirrors.source, mirrors.sourceLate]
  refine .of_ok mirrors ?_
  cases output : known.outputs placeholder.ticket placeholder.channel with
  | none => exact Term.Awaits.single (.ticket output) _
  | some values =>
      rw [within.outputs output]
      exact Compound.foreshadows_strs values

theorem Foreruns.reduceName (foreruns : Foreruns known more made strays recurse)
    (mirrors : early.Mirrors known more made pairs late) (name : String) :
    Precedes known more made pairs
      (Excuses known.Waits made recurse strays again (.name name) early)
      (Compound.Foreshadows known.Waits) (Reduction.reduceName recurse name early)
      (Reduction.reduceName recurse name late) := by
  have stays {excused : Halt → Prop} : Precedes known more made pairs excused
      (Compound.Foreshadows known.Waits) ((pure [.name name] : PassM Store Compound) early)
      ((pure [.name name] : PassM Store Compound) late) :=
    .of_ok mirrors (Term.Alike.atom rfl).single
  unfold Reduction.reduceName
  refine .view (.inspect fun {result} found => ?_)
  cases result with
  | none => exact ⟨none, mirrors.arena.lookup_none mirrors.scope found, stays⟩
  | some values =>
      obtain ⟨holder, value, finds, foreshadows⟩ :=
        mirrors.arena.lookup_some mirrors.scope found
      refine ⟨some value, finds.lookup, .view ?_⟩
      rw [mirrors.contains_resolving mirrors.scope]
      cases marked : early.resolving.contains (early.scope, name) with
      | true => exact stays
      | false =>
          refine .whileResolving mirrors.scope ?_
          refine (foreruns.precedes (mirrors.mark mirrors.scope name) foreshadows).excuse
            fun reason strayed => ?_
          exact .inr ⟨some holder, _, _, .name finds (by simpa using marked), strayed⟩

end Looking

section Branches

variable {cond condLate : Cond} {branch branchLate : BlockId}

/-- Going through the outputs of the branch, what one of them is bound to strays. -/
def OutputStrays (made : BlockId → Prop) (recurse : Compound → PassM Store Compound)
    (strays : Prop → Compound → Pass Store → Halt → Prop) (cond : Cond) (branch : BlockId)
    (outputs : List String) (pass : Pass Store) (reason : Halt) : Prop :=
  ∃ value inner, CallsOutput recurse cond branch outputs pass value inner ∧
    strays (made branch) value inner reason

theorem Foreruns.reduceOutput (foreruns : Foreruns known more made strays recurse)
    (mirrors : early.Mirrors known more made pairs late) (cond condLate : Cond)
    (paired : pairs branch branchLate) (output : String) : Precedes known more made pairs
      (fun reason => ∃ value, early.arena.getLocal branch output = .ok (some value) ∧
        strays (made branch) value (enter branch early) reason)
      (Compound.Foreshadows known.Waits)
      (Reduction.reduceOutput recurse cond branch output early)
      (Reduction.reduceOutput recurse condLate branchLate output late) := by
  obtain ⟨value, result, here, there, related⟩ := mirrors.arena.getLocal paired output
  unfold Reduction.reduceOutput
  refine .inspect fun {other} found => ⟨value, here, ?_⟩
  obtain rfl := Except.ok.inj (there.symm.trans found)
  refine .require related fun {value _} is foreshadows => .inScope ?_
  exact (foreruns.precedes (mirrors.enter paired) foreshadows).excuse
    fun reason strayed => ⟨value, is ▸ here, strayed⟩

theorem Foreruns.reduceOutputs (foreruns : Foreruns known more made strays recurse)
    (mirrors : early.Mirrors known more made pairs late) (cond condLate : Cond)
    (paired : pairs branch branchLate) (outputs : List String) :
    Precedes known more made pairs (OutputStrays made recurse strays cond branch outputs early)
      (Bindings.Foreshadows known.Waits)
      (Reduction.reduceOutputs recurse cond branch outputs early)
      (Reduction.reduceOutputs recurse condLate branchLate outputs late) := by
  induction outputs generalizing pairs early late with
  | nil => exact .of_ok mirrors .nil
  | cons output rest ih =>
      unfold Reduction.reduceOutputs
      refine ((foreruns.reduceOutput mirrors cond condLate paired output).excuse
        fun reason strayed => ?_).bind fun within ran _ mirrors first => ?_
      · obtain ⟨value, here, strayed⟩ := strayed
        exact ⟨value, _, .mk .here here, strayed⟩
      · refine ((ih mirrors (within _ _ paired)).excuse fun reason strayed => ?_).bind
          fun further _ _ mirrors others => .of_ok mirrors (.cons (first.mono further) others)
        obtain ⟨value, _, ⟨meets, here⟩, strayed⟩ := strayed
        exact ⟨value, _, .mk (.later ran meets) here, strayed⟩

theorem Foreruns.residualBranch (foreruns : Foreruns known more made strays recurse)
    (mirrors : early.Mirrors known more made pairs late)
    (prototype : condLate.prototype = cond.prototype) (paired : pairs branch branchLate) :
    Precedes known more made pairs
      (OutputStrays made recurse strays cond branch cond.prototype.outputs early)
      (fun pairs fresh twin => pairs fresh twin)
      (Reduction.residualBranch recurse cond branch early)
      (Reduction.residualBranch recurse condLate branchLate late) := by
  unfold Reduction.residualBranch
  rw [prototype]
  exact (foreruns.reduceOutputs mirrors cond condLate paired _).bind
    fun within _ _ mirrors outputs => .clone mirrors (within _ _ paired) outputs

variable {condition conditionLate : Compound}

/-- While the condition waits both branches are reduced, whatever the other side does. -/
theorem Foreruns.closeCond_waiting (foreruns : Foreruns known more made strays recurse)
    (mirrors : early.Mirrors known more made pairs late)
    (awaits : condition.Awaits known.Waits) (output : String) :
    Precedes known more made pairs
      (fun reason => (residualCond recurse cond condition early).1 = .error reason)
      (Compound.Foreshadows known.Waits)
      (Reduction.closeCond recurse cond condition output early)
      (Reduction.closeCond recurse condLate conditionLate output late) := by
  rw [closeCond_of_awaits cond awaits]
  refine .of_follows mirrors
    (Pass.conservation_follows.residualCond foreruns.follows cond condition early)
    (Pass.conservation_follows.closeCond foreruns.follows condLate conditionLate output late)
    (fun _ failed => failed) ?_
  intro value result ended _
  obtain ⟨thenBlock, elseBlock, rfl⟩ := residualCond_ok (Prod.ext ended rfl)
  obtain ⟨inner, inside, waiting⟩ := awaits
  exact Term.Awaits.single (.condition inside waiting) _

theorem Foreruns.residualCond (foreruns : Foreruns known more made strays recurse)
    (mirrors : early.Mirrors known more made pairs late)
    (conditions : condition.Foreshadows known.Waits pairs conditionLate)
    (prototype : condLate.prototype = cond.prototype)
    (channel : condLate.channel = cond.channel)
    (thenBlocks : pairs cond.thenBlock condLate.thenBlock)
    (elseBlocks : pairs cond.elseBlock condLate.elseBlock) :
    Precedes known more made pairs
      (fun reason => OutputStrays made recurse strays cond cond.thenBlock
        cond.prototype.outputs early reason ∨ ∃ thenBlock between,
        Reduction.residualBranch recurse cond cond.thenBlock early = (.ok thenBlock, between) ∧
          OutputStrays made recurse strays cond cond.elseBlock
            cond.prototype.outputs between reason)
      (Compound.Foreshadows known.Waits)
      (Reduction.residualCond recurse cond condition early)
      (Reduction.residualCond recurse condLate conditionLate late) := by
  refine ((foreruns.residualBranch mirrors prototype thenBlocks).excuse
    fun reason strayed => .inl strayed).bind fun further ranThen _ mirrors thenFresh => ?_
  refine ((foreruns.residualBranch mirrors prototype (further _ _ elseBlocks)).excuse
    fun reason strayed => .inr ⟨_, _, ranThen, strayed⟩).bind
    fun furthest _ _ mirrors elseFresh => ?_
  refine .of_ok mirrors (Term.Alike.single ?_)
  exact Cond.alike_toTerm ((conditions.mono further).mono furthest) prototype channel
    (furthest _ _ thenFresh) elseFresh

theorem Foreruns.reduceCond (foreruns : Foreruns known more made strays recurse)
    (mirrors : early.Mirrors known more made pairs late) (cond condLate : Cond)
    (conditions : cond.condition.Foreshadows (WaitsIf again known.Waits) pairs
      condLate.condition) (prototype : condLate.prototype = cond.prototype)
    (channel : condLate.channel = cond.channel)
    (thenBlocks : pairs cond.thenBlock condLate.thenBlock)
    (elseBlocks : pairs cond.elseBlock condLate.elseBlock) :
    Precedes known more made pairs
      (Excuses known.Waits made recurse strays again cond.toTerm early)
      (Compound.Foreshadows known.Waits)
      (Reduction.reduceCond recurse cond early)
      (Reduction.reduceCond recurse condLate late) := by
  rw [reduceCond_eq, reduceCond_eq]
  refine ((foreruns.precedes mirrors conditions).excuse
    fun reason strayed => .inr ⟨none, _, _, .condition, strayed⟩).bind
    fun {wider condition conditionLate before after} within ran _ mirrors told => ?_
  refine .require_same (by rw [prototype, channel]) fun {output} selected => ?_
  by_cases awaits : condition.Awaits known.Waits
  · exact (foreruns.closeCond_waiting mirrors awaits output).excuse
      fun reason failed => .inl (.branches ran awaits selected failed)
  · have chosen :=
      decide?_foreshadows cond condLate (told.forall₂ awaits) (within _ _ thenBlocks)
        (within _ _ elseBlocks)
    unfold Reduction.closeCond
    generalize decided : decide? cond condition = branch,
      decide? condLate conditionLate = branchLate at chosen
    cases chosen with
    | @some branch _ paired =>
        refine (foreruns.reduceOutput mirrors cond condLate paired output).excuse
          fun reason ⟨value, here, strayed⟩ => ?_
        exact .inr ⟨some branch, value, _, .chosen ran selected decided here, strayed⟩
    | none =>
        refine (foreruns.residualCond mirrors told prototype channel (within _ _ thenBlocks)
          (within _ _ elseBlocks)).excuse fun reason strayed => .inr ?_
        rcases strayed with
            ⟨value, inner, calls, strayed⟩ | ⟨_, _, ranThen, value, inner, calls, strayed⟩
        · exact ⟨some cond.thenBlock, value, inner,
            .thenOutput ran selected decided calls, strayed⟩
        · exact ⟨some cond.elseBlock, value, inner,
            .elseOutput ran selected decided ranThen calls, strayed⟩

end Branches

section Invocations

variable {invocation invocationLate : Invocation}

/-- The body of a native lambda binds the selected output, or finds it
bound, to what strays. -/
def BodyStrays (made : BlockId → Prop)
    (strays : Prop → Compound → Pass Store → Halt → Prop) (invocation : Invocation)
    (pass : Pass Store) (reason : Halt) : Prop :=
  ∃ holder value inner, CallsBody invocation pass holder value inner ∧
    strays (made holder) value inner reason

theorem requestTicket_run (apply : Apply) (pass : Pass Store) :
    requestTicket apply pass =
      match apply.foreignTask with
      | .ok lambda => (.ok (pass.source.placeholder apply lambda), pass)
      | .error error => (.error (.rejected (.ticket error)), pass) := by
  unfold requestTicket
  cases task : apply.foreignTask <;> simp [TicketSource.request, task, Except.map]

/-- An invocation of a foreign lambda asks for the same ticket on both sides,
unless an argument waits. -/
theorem precedes_foreign (within : known.Within more)
    (mirrors : early.Mirrors known more made pairs late)
    (alike : invocation.Alike known.Waits pairs invocationLate) {excused : Halt → Prop} :
    Precedes known more made pairs excused (Compound.Foreshadows known.Waits)
      ((if invocation.toApply.areArgumentsNormal then
        requestTicket invocation.toApply >>= resolve
        else pure [invocation.toApply.toTerm] : PassM Store Compound) early)
      ((if invocationLate.toApply.areArgumentsNormal then
        requestTicket invocationLate.toApply >>= resolve
        else pure [invocationLate.toApply.toTerm] : PassM Store Compound) late) := by
  by_cases normalLate : invocationLate.toApply.areArgumentsNormal = true
  · rw [if_pos normalLate, bind_run (requestTicket invocationLate.toApply),
      requestTicket_run]
    cases accepted : invocationLate.toApply.foreignTask with
    | error error => exact .of_error
    | ok lambda =>
        by_cases awaits : Bindings.Awaits known.Waits invocation.bindings
        · have unknown : ¬invocation.toApply.areArgumentsNormal = true :=
            awaits.not_normal
          rw [if_neg unknown]
          exact .of_ok mirrors ((alike.awaits accepted awaits).single _)
        · rw [alike.toApply_eq accepted awaits, if_pos normalLate, bind_run,
            requestTicket_run, accepted]
          have placeholders : early.source.placeholder invocationLate.toApply lambda =
              late.source.placeholder invocationLate.toApply lambda := by
            simp only [Store.placeholder, mirrors.source, mirrors.sourceLate,
              within.identity]
          simp only [placeholders]
          exact precedes_resolve within mirrors _
  · have unknown : ¬invocation.toApply.areArgumentsNormal = true :=
      fun normal => normalLate (alike.bindings.normal normal)
    rw [if_neg normalLate, if_neg unknown]
    exact .of_ok mirrors alike.toApply.toTerm.single

theorem Foreruns.reduceInvocation (foreruns : Foreruns known more made strays recurse)
    (mirrors : early.Mirrors known more made pairs late)
    (alike : invocation.Alike known.Waits pairs invocationLate) :
    Precedes known more made pairs (BodyStrays made strays invocation early)
      (Compound.Foreshadows known.Waits) (Reduction.reduceInvocation recurse invocation early)
      (Reduction.reduceInvocation recurse invocationLate late) := by
  unfold Reduction.reduceInvocation
  refine .require_same (by rw [alike.lambda.prototype, alike.channel])
    fun {output} offered => ?_
  obtain ⟨lambda, arguments, _⟩ := invocation
  obtain ⟨lambdaLate, argumentsLate, channel⟩ := invocationLate
  obtain ⟨lambdas, bindings, distinct, rfl⟩ := alike
  cases lambdas with
  | foreign lambda =>
      exact precedes_foreign foreruns.within mirrors ⟨.foreign lambda, bindings, distinct, rfl⟩
  | @native prototype body bodyLate paired =>
      simp only [reduceNative_eq]
      have called : Precedes known more made pairs
          (BodyStrays made strays ⟨.native ⟨prototype, body⟩, arguments, channel⟩ early)
          (fun pairs fresh twin => pairs fresh twin)
          (callScope ⟨prototype, body⟩ arguments early)
          (callScope ⟨prototype, bodyLate⟩ argumentsLate late) := by
        refine .make mirrors bindings fun {twin after} made => ?_
        obtain ⟨block, _, here, _, _⟩ := mirrors.arena.blocks paired
        have right := mirrors.soundLate.alloc made
        exact ⟨_, _, { parent := some body }, _, Arena.alloc_of_block? here.1,
          mirrors.sound.insert _, right, ⟨.some paired, .nil⟩⟩
      refine called.bind fun {wider scope twin before after} within ran _ mirrors fresh =>
        .inScope (.inspect fun {result} found => ?_)
      cases result with
      | none => exact ⟨none, mirrors.arena.lookup_none fresh found, .of_error⟩
      | some values =>
          obtain ⟨holder, value, finds, foreshadows⟩ :=
            mirrors.arena.lookup_some fresh found
          refine ⟨some value, finds.lookup, ?_⟩
          refine (foreruns.precedes (mirrors.enter fresh) foreshadows).excuse
            fun reason strayed => ?_
          exact ⟨holder, value, _, .mk offered ran finds, strayed⟩

end Invocations

section Applications

theorem Foreruns.mapEntries (foreruns : Foreruns known more made strays recurse)
    (mirrors : early.Mirrors known more made pairs late) {bindings others : Bindings}
    (arguments : Bindings.Foreshadows (WaitsIf again known.Waits) pairs bindings others) :
    Precedes known more made pairs
      (fun reason => ∃ binding inner, Meets (fun binding => recurse binding.2) bindings
        early binding inner ∧ strays again binding.2 inner reason)
      (Bindings.Foreshadows known.Waits)
      (PassM.mapEntries recurse bindings early) (PassM.mapEntries recurse others late) := by
  induction bindings generalizing pairs early late others with
  | nil =>
      cases arguments
      exact .of_ok mirrors .nil
  | cons binding rest ih =>
      cases arguments with
      | @cons name value _ _ _ here later =>
          unfold PassM.mapEntries
          refine ((foreruns.precedes mirrors here).excuse fun reason strayed => ?_).bind
            fun within ran _ mirrors first => ?_
          · exact ⟨(name, value), early, .here, strayed⟩
          · refine ((ih mirrors (Bindings.Foreshadows.mono later within)).excuse
              fun reason strayed => ?_).bind fun further _ _ mirrors others =>
              .of_ok mirrors (.cons (first.mono further) others)
            obtain ⟨binding, inner, meets, strayed⟩ := strayed
            exact ⟨binding, inner, .later ran meets, strayed⟩

/-- The part calls a native lambda, and what that reduces strays. -/
def PartStrays (made : BlockId → Prop)
    (strays : Prop → Compound → Pass Store → Halt → Prop) (part : Part)
    (pass : Pass Store) (reason : Halt) : Prop :=
  ∃ invocation, part = .invoke invocation ∧ BodyStrays made strays invocation pass reason

/-- The parts of an application, worked off in order. -/
theorem Foreruns.joinParts (foreruns : Foreruns known more made strays recurse)
    {parts partsLate : List Part}
    (foreshadow : Parts.Foreshadow known.Waits pairs parts partsLate)
    (mirrors : early.Mirrors known more made pairs late) : Precedes known more made pairs
      (fun reason => ∃ part reached, Meets (reducePart recurse) parts early part reached ∧
        PartStrays made strays part reached reason) (Compound.Foreshadows known.Waits)
      (joinMap (reducePart recurse) parts early)
      (joinMap (reducePart recurse) partsLate late) := by
  induction parts generalizing pairs early late partsLate with
  | nil =>
      cases foreshadow
      exact .of_ok mirrors .nil
  | cons part rest ih =>
      cases foreshadow with
      | waiting awaits foreshadow =>
          refine .join _ (.of_follows mirrors (Pass.conservation_follows.refl early) ?_
            (fun _ failed => nomatch failed) ?_)
            fun within mirrors => ih (foreshadow.mono within) mirrors
          · exact Pass.conservation_follows.joinMap
              (fun part _ => Pass.conservation_follows.reducePart foreruns.follows part) late
          · intro value result ended _
            obtain rfl := Except.ok.inj ended
            exact awaits.single _
      | @alike _ other _ _ alike foreshadow =>
          refine .join [other] ?_ fun within mirrors => ih (foreshadow.mono within) mirrors
          rw [joinMap_singleton]
          cases alike with
          | keep alike => exact .of_ok mirrors alike.toTerm.single
          | @invoke invocation _ alike =>
              exact (foreruns.reduceInvocation mirrors alike).excuse fun reason strayed =>
                ⟨invocation, rfl, strayed⟩
      | reject => exact .of_error

theorem Foreruns.reduceApply (foreruns : Foreruns known more made strays recurse)
    (mirrors : early.Mirrors known more made pairs late) {apply other : Apply}
    (alike : apply.Alike (WaitsIf again known.Waits) pairs other) :
    Precedes known more made pairs
      (Excuses known.Waits made recurse strays again apply.toTerm early)
      (Compound.Foreshadows known.Waits)
      (Reduction.reduceApply recurse apply early)
      (Reduction.reduceApply recurse other late) := by
  unfold Reduction.reduceApply
  refine ((foreruns.precedes mirrors alike.task).excuse
    fun reason strayed => .inr ⟨none, _, _, .task, strayed⟩).bind
    fun {_ task taskLate _ _} within ranTask _ told tasks => ?_
  refine ((foreruns.mapEntries told (alike.bindings.mono within)).excuse
    fun reason ⟨binding, inner, meets, strayed⟩ =>
      .inr ⟨none, _, _, .argument ranTask meets, strayed⟩).bind
    fun {_ bindings bindingsLate _ _} further ranBindings _ mirrors arguments => ?_
  have names := (foreruns.toLingering.mapEntries told.source ranBindings).keys
  have expanded : Apply.Alike known.Waits _ { apply with task, bindings }
      { other with task := taskLate, bindings := bindingsLate } :=
    { task := tasks.mono further
      bindings := arguments
      distinct := by rw [OrderedMap.Distinct, names]; exact alike.distinct
      channel := alike.channel
      rest := alike.rest }
  refine (foreruns.joinParts expanded.expand mirrors).excuse fun reason strayed => ?_
  obtain ⟨_, reached, meets, invocation, rfl, holder, value, inner, calls, strayed⟩ :=
    strayed
  exact .inr ⟨some holder, value, inner, .body ranTask ranBindings meets calls, strayed⟩

end Applications

section Curries

variable {task taskLate : Compound} {bindings bindingsLate : Bindings}
  {excused : Halt → Prop}

theorem precedes_bindParams (mirrors : early.Mirrors known more made pairs late)
    {prototype : Prototype} {body bodyLate : BlockId} (paired : pairs body bodyLate)
    (arguments : Bindings.Foreshadows known.Waits pairs bindings bindingsLate) :
    Precedes known more made pairs excused
      (fun pairs native nativeLate => Lambda.Alike pairs (.native native) (.native nativeLate))
      (bindParams ⟨prototype, body⟩ bindings early)
      (bindParams ⟨prototype, bodyLate⟩ bindingsLate late) := by
  rw [bindParams_eq, bindParams_eq, arguments.keys]
  exact (Precedes.clone mirrors paired arguments).bind
    fun _ _ _ mirrors fresh => .of_ok mirrors (.native fresh)

theorem precedes_closeCurry (mirrors : early.Mirrors known more made pairs late)
    (curry curryLate : Curry) (tasks : task.Foreshadows known.Waits pairs taskLate)
    (arguments : Bindings.Foreshadows known.Waits pairs bindings bindingsLate) :
    Precedes known more made pairs excused (Compound.Foreshadows known.Waits)
      (closeCurry curry task bindings early)
      (closeCurry curryLate taskLate bindingsLate late) := by
  by_cases awaits : task.Awaits known.Waits
  · have stays : (closeCurry curry task bindings : PassM Store Compound) =
        pure [Curry.toTerm { task := some task, bindings }] :=
      closeCurry_of_awaits curry awaits bindings
    rw [stays]
    obtain ⟨inner, inside, waiting⟩ := awaits
    refine .of_follows mirrors (Pass.conservation_follows.refl early)
      (Pass.conservation_follows.closeCurry curryLate taskLate bindingsLate late)
      (fun _ failed => nomatch failed) fun value _ ended _ => ?_
    obtain rfl := Except.ok.inj ended
    exact Term.Awaits.single (.curried inside waiting) _
  · have alike := tasks.forall₂ awaits
    match alike with
    | .nil => exact .of_error
    | .cons here .nil =>
        rcases here.lambda_cases with
            ⟨lambda, lambdaLate, rfl, rfl, lambdas⟩ | ⟨unlike, unlikeLate⟩
        · cases lambdas with
          | foreign lambda => exact .of_error
          | native paired =>
              exact (precedes_bindParams mirrors paired arguments).bind
                fun _ _ _ mirrors natives => .of_ok mirrors (Term.Alike.lambda natives).single
        · rw [closeCurry_other curry unlike,
            closeCurry_other curryLate unlikeLate, here.isNormal]
          split
          · exact .of_error
          · exact .of_ok mirrors (Term.Alike.curry tasks arguments).single
    | .cons _ (.cons _ _) =>
        rw [closeCurry_many, closeCurry_many]
        exact .of_ok mirrors (Term.Alike.curry tasks arguments).single

theorem Foreruns.reduceCurry (foreruns : Foreruns known more made strays recurse)
    (mirrors : early.Mirrors known more made pairs late)
    (tasks : task.Foreshadows (WaitsIf again known.Waits) pairs taskLate)
    (told : ¬task.Awaits (WaitsIf again known.Waits))
    (arguments : Bindings.Foreshadows (WaitsIf again known.Waits)
      pairs bindings bindingsLate) :
    Precedes known more made pairs
      (Excuses known.Waits made recurse strays again (.curry (some task) bindings) early)
      (Compound.Foreshadows known.Waits)
      (Reduction.reduceCurry recurse ⟨some task, bindings⟩ early)
      (Reduction.reduceCurry recurse ⟨some taskLate, bindingsLate⟩ late) := by
  have alike := tasks.forall₂ told
  match alike with
  | .nil => exact .of_error
  | .cons here .nil =>
      refine ((foreruns.precedes mirrors here.single).excuse fun reason strayed => .inr
        ⟨none, _, _, .curriedTask, strayed⟩).bind fun within ranTask _ mirrors tasks => ?_
      refine ((foreruns.mapEntries mirrors (arguments.mono within)).excuse
        fun reason ⟨binding, inner, meets, strayed⟩ =>
          .inr ⟨none, _, _, .curriedArgument ranTask meets, strayed⟩).bind
        fun further _ _ mirrors arguments => ?_
      exact precedes_closeCurry mirrors _ _ (tasks.mono further) arguments
  | .cons _ (.cons _ _) =>
      exact .of_ok mirrors
        ((Term.Alike.curry tasks arguments).imp (fun _ => And.right) (le_refl pairs)).single

end Curries

section Terms

variable {term other : Term} {terms later : Compound}

/-- A term that does not wait, against one that is alike. -/
theorem Foreruns.reduceTerm (foreruns : Foreruns known more made strays recurse)
    (mirrors : early.Mirrors known more made pairs late)
    (alike : term.Alike (WaitsIf again known.Waits) pairs other)
    (told : ¬term.Awaits (WaitsIf again known.Waits)) :
    Precedes known more made pairs (Excuses known.Waits made recurse strays again term early)
      (Compound.Foreshadows known.Waits)
      (Reduction.reduceTerm recurse term early) (Reduction.reduceTerm recurse other late) := by
  cases alike with
  | atom atomic =>
      cases term with
      | name name => exact foreruns.reduceName mirrors name
      | str value => exact .of_ok mirrors (Term.Alike.atom rfl).single
      | ticket placeholder => exact precedes_resolve foreruns.within mirrors placeholder
      | _ => simp [Term.isAtomic] at atomic
  | lambda lambdas => exact .of_ok mirrors (Term.Alike.lambda lambdas).single
  | @apply task taskLate bindings bindingsLate channel rest tasks arguments distinct =>
      have alike : Apply.Alike (WaitsIf again known.Waits) pairs
          ⟨task, bindings, channel, rest⟩ ⟨taskLate, bindingsLate, channel, rest⟩ :=
        ⟨tasks, arguments, distinct, rfl, rfl⟩
      exact foreruns.reduceApply mirrors alike
  | @cond condition conditionLate prototype channel thenBlock elseBlock thenLate elseLate
      conditions thenBlocks elseBlocks =>
      exact foreruns.reduceCond mirrors ⟨condition, prototype, channel, thenBlock, elseBlock⟩
        ⟨conditionLate, prototype, channel, thenLate, elseLate⟩ conditions
        rfl rfl thenBlocks elseBlocks
  | bare => exact .of_error
  | curry tasks arguments =>
      refine foreruns.reduceCurry mirrors tasks (fun awaits => ?_) arguments
      obtain ⟨_, inside, waiting⟩ := awaits
      exact told (.curried inside waiting)

/-- A term that waits, reduced once more, whatever it stands for. -/
theorem Foreruns.reduceTerm_waiting (foreruns : Foreruns known more made strays recurse)
    (mirrors : early.Mirrors known more made pairs late)
    (awaits : term.Awaits (WaitsIf again known.Waits)) (part : Compound) :
    Precedes known more made pairs (Excuses known.Waits made recurse strays again term early)
      (Compound.Foreshadows known.Waits)
      (Reduction.reduceTerm recurse term early)
      (PassM.joinMap (Reduction.reduceTerm recurse) part late) := by
  have awaited := awaits.mono fun _ => And.right
  obtain ⟨_, left, _⟩ := awaits.exists_waits
  refine .of_follows mirrors (Pass.conservation_follows.reduceTerm foreruns.follows term early)
    (Pass.conservation_follows.joinMap
      (fun term _ => Pass.conservation_follows.reduceTerm foreruns.follows term) late)
    (fun reason failed => .inl (.again left awaited failed)) fun value _ ended _ => ?_
  obtain ⟨other, rfl, still⟩ :=
    foreruns.toLingering.reduceTerm awaited mirrors.source (Prod.ext ended rfl)
  exact still.single _

theorem Foreruns.joinMap (foreruns : Foreruns known more made strays recurse)
    (mirrors : early.Mirrors known more made pairs late)
    (foreshadows : terms.Foreshadows (WaitsIf again known.Waits) pairs later) :
    Precedes known more made pairs
      (fun reason => ∃ term reached, Meets (Reduction.reduceTerm recurse) terms early term
        reached ∧ Excuses known.Waits made recurse strays again term reached reason)
      (Compound.Foreshadows known.Waits)
      (PassM.joinMap (Reduction.reduceTerm recurse) terms early)
      (PassM.joinMap (Reduction.reduceTerm recurse) later late) := by
  induction terms generalizing pairs early late later with
  | nil =>
      cases foreshadows
      exact .of_ok mirrors .nil
  | cons term rest ih =>
      cases foreshadows with
      | waiting awaits foreshadows =>
          exact .join _ (foreruns.reduceTerm_waiting mirrors awaits _)
            fun within mirrors => ih mirrors (foreshadows.mono within)
      | @alike _ other _ _ alike foreshadows =>
          refine .join [other] ?_ fun within mirrors => ih mirrors (foreshadows.mono within)
          by_cases awaits : term.Awaits (WaitsIf again known.Waits)
          · exact foreruns.reduceTerm_waiting mirrors awaits [other]
          · rw [joinMap_singleton]
            exact foreruns.reduceTerm mirrors alike awaits

theorem foreruns_reduce (within : known.Within more)
    (made : BlockId → Prop) (depth : Nat) :
    Foreruns known more made (fun again => Strays known.Waits made again depth)
      (reduce depth) := by
  induction depth with
  | zero => exact ⟨lingering_reduce known 0, within, fun _ _ => .of_error⟩
  | succ depth ih =>
      refine ⟨lingering_reduce known (depth + 1), within,
        fun {_ _ _ _ terms _} mirrors foreshadows => ?_⟩
      refine (ih.joinMap mirrors foreshadows).excuse
        fun reason ⟨term, reached, meets, excuses⟩ => ?_
      rcases excuses with idles | ⟨holder, value, inner, calls, strayed⟩
      · exact .here meets idles
      · exact .inside meets calls strayed

theorem precedes_reduceTargets (within : known.Within more)
    (mirrors : early.Mirrors known more made pairs late) (depth : Nat)
    {targets targetsLate : List Compound}
    (foreshadow : List.Forall₂ (Compound.Foreshadows (WaitsIf again known.Waits) pairs)
      targets targetsLate) : Precedes known more made pairs
      (fun reason => ∃ target reached, Meets (reduce depth) targets early target reached ∧
        Strays known.Waits made again depth target reached reason)
      (fun pairs => List.Forall₂ (Compound.Foreshadows known.Waits pairs))
      (reduceTargets depth targets early) (reduceTargets depth targetsLate late) := by
  induction targets generalizing pairs early late targetsLate with
  | nil =>
      cases foreshadow
      exact .of_ok mirrors .nil
  | cons target rest ih =>
      obtain _ | ⟨here, others⟩ := foreshadow
      unfold reduceTargets
      refine (((foreruns_reduce within made depth).precedes mirrors here).excuse
        fun reason strayed => ⟨target, early, .here, strayed⟩).bind
        fun further ran _ mirrors first => ?_
      refine ((ih mirrors (others.imp fun _ _ foreshadows => foreshadows.mono further)).excuse
        fun reason strayed => ?_).bind fun furthest _ _ mirrors second => ?_
      · obtain ⟨found, reached, meets, strayed⟩ := strayed
        exact ⟨found, reached, .later ran meets, strayed⟩
      · exact .of_ok mirrors (.cons (first.mono furthest) second)

end Terms

end Reduction

end TicketFlow
