import TicketFlow.Proofs.Lockstep.Abreast
import TicketFlow.Proofs.Lockstep.Sources
import TicketFlow.Proofs.Timing.Parts

namespace TicketFlow

/-! Reduction keeps two runs abreast.

Whatever is reduced, passes that go abreast look up the same up to numbers, take the
same branches, make the same calls and ask for the same tickets: a request that is
granted is made of strings, so no number of a block stands in it.
-/

variable {σ : Type} {pairs : BlockId → BlockId → Prop}

section Strings

variable {terms others : Compound} {bindings arguments : Bindings}

theorem Term.Alike.isStr {waits : Placeholder → Prop} {term other : Term}
    (alike : term.Alike waits pairs other) : other.isStr = term.isStr := by
  cases alike <;> rfl

theorem Compound.Tallies.all_isStr (tallies : terms.Tallies pairs others) :
    others.all Term.isStr = terms.all Term.isStr := by
  have alike := Compound.Tallies.forall₂ tallies
  clear tallies
  induction alike with
  | nil => rfl
  | cons here _ ih => rw [List.all_cons, List.all_cons, here.isStr, ih]

/-- Arguments that are strings are the same. -/
theorem Bindings.Tallies.eq_of_strs (tallies : bindings.Tallies pairs arguments)
    (strs : (∀ binding ∈ bindings, ∀ term ∈ binding.2, term.isStr = true) ∨
      ∀ binding ∈ arguments, ∀ term ∈ binding.2, term.isStr = true) :
        bindings = arguments := by
  refine Bindings.eq_of_strs tallies
    (fun ⟨binding, _, awaits⟩ => binding.2.not_awaits_nothing awaits)
    (strs.elim (fun here binding among => ?_) id)
  obtain ⟨value, before, values⟩ := OrderedMap.Matches.mem_right tallies among
  rw [← List.all_eq_true, Compound.Tallies.all_isStr values, List.all_eq_true]
  exact here _ before

theorem Compound.tallies_strs (strs : ∀ term ∈ terms, ∃ text, term = .str text) :
    terms.Tallies pairs terms := by
  refine Compound.foreshadows_refl fun term inside => ?_
  obtain ⟨text, rfl⟩ := strs term inside
  exact .atom rfl

end Strings

namespace Reduction

open PassM

variable {fork : Fork} {sound : σ → Prop} {left right : Pass σ}
  {recurse : Compound → PassM σ Compound}

/-- From passes that go abreast the reduction of terms that are the same up to
numbers goes on abreast. -/
def Lockstep (fork : Fork) (sound : σ → Prop)
    (recurse : Compound → PassM σ Compound) : Prop :=
  ∀ {pairs : BlockId → BlockId → Prop} {left right : Pass σ} {terms others : Compound},
    left.Abreast fork sound pairs right → terms.Tallies pairs others →
    Concurs fork sound pairs Compound.Tallies (recurse terms left) (recurse others right)

section Names

theorem Lockstep.reduceName (lockstep : Lockstep fork sound recurse)
    (abreast : left.Abreast fork sound pairs right) (name : String) :
    Concurs fork sound pairs Compound.Tallies (Reduction.reduceName recurse name left)
      (Reduction.reduceName recurse name right) := by
  have stays : Concurs fork sound pairs Compound.Tallies
      ((pure [.name name] : PassM σ Compound) left)
      ((pure [.name name] : PassM σ Compound) right) :=
    .of_ok abreast (Term.Alike.atom rfl).single
  unfold Reduction.reduceName
  refine .view (.inspect abreast (abreast.arena.lookup abreast.scope name) fun related => ?_)
  cases related with
  | none => exact stays
  | some values =>
      refine .view ?_
      rw [abreast.contains_resolving abreast.arena.once abreast.scope]
      cases left.resolving.contains (left.scope, name) with
      | true => exact stays
      | false =>
          exact .whileResolving abreast.scope
            (lockstep (abreast.mark abreast.scope name) values)

end Names

section Branches

variable {cond twin : Cond} {branch other : BlockId}

theorem Lockstep.reduceOutput (lockstep : Lockstep fork sound recurse)
    (abreast : left.Abreast fork sound pairs right) (cond twin : Cond)
    (paired : pairs branch other) (output : String) :
    Concurs fork sound pairs Compound.Tallies
      (Reduction.reduceOutput recurse cond branch output left)
      (Reduction.reduceOutput recurse twin other output right) := by
  unfold Reduction.reduceOutput
  refine .inspect abreast (abreast.arena.tallies.foundLocal paired output) fun related => ?_
  exact .require abreast related
    fun values => .inScope (lockstep (abreast.enter (.inl paired)) values)

theorem Lockstep.reduceOutputs (lockstep : Lockstep fork sound recurse)
    (abreast : left.Abreast fork sound pairs right) (cond twin : Cond)
    (paired : pairs branch other) (outputs : List String) :
    Concurs fork sound pairs Bindings.Tallies
      (Reduction.reduceOutputs recurse cond branch outputs left)
      (Reduction.reduceOutputs recurse twin other outputs right) := by
  induction outputs generalizing pairs left right with
  | nil => exact .of_ok abreast .nil
  | cons output rest ih =>
      refine (lockstep.reduceOutput abreast cond twin paired output).bind
        fun within abreast first => ?_
      exact (ih abreast (within _ _ paired)).bind fun further abreast others =>
        .of_ok abreast (.cons (first.mono further) others)

theorem Lockstep.residualBranch (lockstep : Lockstep fork sound recurse)
    (abreast : left.Abreast fork sound pairs right)
    (prototype : twin.prototype = cond.prototype) (paired : pairs branch other) :
    Concurs fork sound pairs (fun pairs fresh copy => pairs fresh copy)
      (Reduction.residualBranch recurse cond branch left)
      (Reduction.residualBranch recurse twin other right) := by
  unfold Reduction.residualBranch
  rw [prototype]
  exact (lockstep.reduceOutputs abreast cond twin paired _).bind
    fun within abreast outputs => .clone abreast (within _ _ paired) outputs

theorem Lockstep.residualCond (lockstep : Lockstep fork sound recurse)
    (abreast : left.Abreast fork sound pairs right) {condition conditionTwin : Compound}
    (conditions : condition.Tallies pairs conditionTwin)
    (prototype : twin.prototype = cond.prototype) (channel : twin.channel = cond.channel)
    (thenBlocks : pairs cond.thenBlock twin.thenBlock)
    (elseBlocks : pairs cond.elseBlock twin.elseBlock) :
    Concurs fork sound pairs Compound.Tallies
      (Reduction.residualCond recurse cond condition left)
      (Reduction.residualCond recurse twin conditionTwin right) := by
  refine (lockstep.residualBranch abreast prototype thenBlocks).bind
    fun within abreast thenFresh => ?_
  refine (lockstep.residualBranch abreast prototype (within _ _ elseBlocks)).bind
    fun further abreast elseFresh => ?_
  refine .of_ok abreast (Term.Alike.single ?_)
  exact Cond.alike_toTerm ((conditions.mono within).mono further) prototype channel
    (further _ _ thenFresh) elseFresh

theorem Lockstep.reduceCond (lockstep : Lockstep fork sound recurse)
    (abreast : left.Abreast fork sound pairs right)
    (conditions : cond.condition.Tallies pairs twin.condition)
    (prototype : twin.prototype = cond.prototype) (channel : twin.channel = cond.channel)
    (thenBlocks : pairs cond.thenBlock twin.thenBlock)
    (elseBlocks : pairs cond.elseBlock twin.elseBlock) :
    Concurs fork sound pairs Compound.Tallies (Reduction.reduceCond recurse cond left)
      (Reduction.reduceCond recurse twin right) := by
  rw [reduceCond_eq, reduceCond_eq, prototype, channel]
  refine (lockstep abreast conditions).bind
    fun {wider condition conditionTwin _ _} within abreast told => ?_
  refine .require_same _ abreast fun output => ?_
  have chosen :=
    decide?_foreshadows cond twin told.forall₂ (within _ _ thenBlocks) (within _ _ elseBlocks)
  unfold Reduction.closeCond
  generalize decide? cond condition = branch,
    decide? twin conditionTwin = branchTwin at chosen
  cases chosen with
  | some paired => exact lockstep.reduceOutput abreast cond twin paired output
  | none =>
      exact lockstep.residualCond abreast told prototype channel (within _ _ thenBlocks)
        (within _ _ elseBlocks)

end Branches

section Calls

variable [TicketSource σ]

theorem concurs_resolve (strict : TicketSource.Strict sound)
    (abreast : left.Abreast fork sound pairs right) (placeholder : Placeholder) :
    Concurs fork sound pairs Compound.Tallies (resolve placeholder left)
      (resolve placeholder right) := by
  rw [resolve_run, resolve_run, abreast.source]
  refine .of_ok { abreast with source := rfl, known := strict.read abreast.known } ?_
  cases known : TicketSource.output? left.source placeholder.ticket placeholder.channel with
  | none => exact (Term.Alike.atom rfl).single
  | some values => exact Compound.tallies_strs (strict.literal abreast.known known)

/-- A request that is granted is the same on both sides. -/
theorem concurs_requestTicket (strict : TicketSource.Strict sound)
    (abreast : left.Abreast fork sound pairs right) {apply other : Apply}
    (same : ∀ lambda, apply.foreignTask = .ok lambda ∨ other.foreignTask = .ok lambda →
      apply = other) :
    Concurs fork sound pairs (fun _ placeholder twin => placeholder = twin)
      (requestTicket apply left)
      (requestTicket other right) := by
  unfold requestTicket
  rw [abreast.consumer, abreast.query, abreast.source]
  cases asked : TicketSource.request left.source left.consumer left.query apply with
  | ok granted =>
      -- only strings are granted, so the other side asks for the very same
      obtain ⟨lambda, accepted⟩ := strict.contract abreast.known asked
      rw [← same lambda (.inl accepted), asked]
      refine .of_ok ?_ rfl
      exact
        { abreast with
          consumer := rfl, query := rfl, source := rfl
          known := strict.granted abreast.known asked }
  | error refused =>
      cases askedTwin : TicketSource.request left.source left.consumer left.query other with
      | ok granted =>
          obtain ⟨lambda, accepted⟩ := strict.contract abreast.known askedTwin
          rw [← same lambda (.inr accepted), asked] at askedTwin
          exact nomatch askedTwin
      | error refusedTwin => exact .error (.rejected _ _) abreast.source

/-- Invocations of the same foreign lambda with the same arguments up to numbers. -/
theorem concurs_foreign (strict : TicketSource.Strict sound)
    (abreast : left.Abreast fork sound pairs right) {invocation other : Invocation}
    {lambda : ForeignLambda} (alike : invocation.Alike nothingWaits pairs other)
    (task : invocation.lambda = .foreign lambda)
    (taskTwin : other.lambda = .foreign lambda) :
    Concurs fork sound pairs Compound.Tallies
      ((if invocation.toApply.areArgumentsNormal then
        requestTicket invocation.toApply >>= resolve
        else pure [invocation.toApply.toTerm] : PassM σ Compound) left)
      ((if other.toApply.areArgumentsNormal then requestTicket other.toApply >>= resolve
        else pure [other.toApply.toTerm] : PassM σ Compound) right) := by
  have known : ¬Bindings.Awaits nothingWaits invocation.bindings :=
    fun ⟨binding, _, awaits⟩ => binding.2.not_awaits_nothing awaits
  by_cases normal : invocation.toApply.areArgumentsNormal = true
  · have normalTwin : other.toApply.areArgumentsNormal = true :=
      alike.bindings.normal normal
    rw [if_pos normal, if_pos normalTwin]
    refine (concurs_requestTicket strict abreast fun accepted grants => ?_).bind
      fun _ abreast same => ?_
    · have strs :=
        grants.imp (fun granted => Apply.checkLiterals_ok (Apply.foreignTask_ok granted).2.2)
          fun granted => Apply.checkLiterals_ok (Apply.foreignTask_ok granted).2.2
      have arguments := Bindings.Tallies.eq_of_strs alike.bindings strs
      simp only [Invocation.toApply, task, taskTwin, arguments, alike.channel]
    · subst same
      exact concurs_resolve strict abreast _
  · have open_ : ¬other.toApply.areArgumentsNormal = true :=
      alike.bindings.not_normal known normal
    rw [if_neg normal, if_neg open_]
    exact .of_ok abreast alike.toApply.toTerm.single

omit [TicketSource σ] in
/-- What the output is bound to is reduced in the scope of the call. -/
theorem Lockstep.inCall (lockstep : Lockstep fork sound recurse)
    (abreast : left.Abreast fork sound pairs right) {slot other : BlockId}
    (paired : fork.scopes pairs slot other) (error twin : ReduceError) (output : String) :
    Concurs fork sound pairs Compound.Tallies
      (PassM.inScope slot (PassM.inspect (fun arena => arena.lookup slot output) >>=
        fun bound => require error bound >>= recurse) left)
      (PassM.inScope other (PassM.inspect (fun arena => arena.lookup other output) >>=
        fun bound => require twin bound >>= recurse) right) := by
  have inside := abreast.enter paired
  exact .inScope (.inspect inside (abreast.arena.lookup paired output) fun related =>
    .require inside related fun values => lockstep inside values)

omit [TicketSource σ] in
theorem Lockstep.reduceNative (lockstep : Lockstep fork sound recurse)
    (abreast : left.Abreast fork sound pairs right) {native twin : NativeLambda}
    {invocation other : Invocation} (paired : pairs native.body twin.body)
    (arguments : invocation.bindings.Tallies pairs other.bindings) (output : String) :
    Concurs fork sound pairs Compound.Tallies
      (Reduction.reduceNative recurse native invocation output left)
      (Reduction.reduceNative recurse twin other output right) := by
  rw [reduceNative_eq, reduceNative_eq]
  exact (Concurs.call abreast paired arguments).bind
    fun _ abreast fresh => lockstep.inCall abreast (.inl fresh) _ _ output

theorem Lockstep.reduceInvocation (lockstep : Lockstep fork sound recurse)
    (strict : TicketSource.Strict sound) (abreast : left.Abreast fork sound pairs right)
    {invocation other : Invocation} (alike : invocation.Alike nothingWaits pairs other) :
    Concurs fork sound pairs Compound.Tallies
      (Reduction.reduceInvocation recurse invocation left)
      (Reduction.reduceInvocation recurse other right) := by
  unfold Reduction.reduceInvocation
  rw [alike.lambda.prototype, alike.channel]
  refine .require_same _ abreast fun output => ?_
  have lambdas := alike.lambda
  generalize task : invocation.lambda = lambda, taskTwin : other.lambda = twin at lambdas
  cases lambdas with
  | native paired => exact lockstep.reduceNative abreast paired alike.bindings output
  | foreign lambda => exact concurs_foreign strict abreast alike task taskTwin

end Calls

section Applications

variable [TicketSource σ]

omit [TicketSource σ] in
/-- Arguments keep their names. -/
theorem Lockstep.mapEntries (lockstep : Lockstep fork sound recurse)
    (abreast : left.Abreast fork sound pairs right) {bindings others : Bindings}
    (arguments : bindings.Tallies pairs others) :
    Concurs fork sound pairs (fun pairs results twins => results.keys = bindings.keys ∧
      Bindings.Tallies pairs results twins) (PassM.mapEntries recurse bindings left)
      (PassM.mapEntries recurse others right) := by
  induction bindings generalizing pairs left right others with
  | nil =>
      cases arguments
      exact .of_ok abreast ⟨rfl, .nil⟩
  | cons binding rest ih =>
      cases arguments with
      | @cons name value _ _ _ here later =>
          refine (lockstep abreast here).bind fun within abreast first => ?_
          refine (ih abreast (Bindings.Foreshadows.mono later within)).bind
            fun further abreast ⟨keys, second⟩ => ?_
          exact .of_ok abreast ⟨congrArg (name :: ·) keys, .cons (first.mono further) second⟩

/-- The parts of an application, worked off in order. -/
theorem Lockstep.joinParts (lockstep : Lockstep fork sound recurse)
    (strict : TicketSource.Strict sound)
    (abreast : left.Abreast fork sound pairs right) {parts others : List Part}
    (foreshadow : Parts.Foreshadow nothingWaits pairs parts others) :
    Concurs fork sound pairs Compound.Tallies (PassM.joinMap (reducePart recurse) parts left)
      (PassM.joinMap (reducePart recurse) others right) := by
  induction parts generalizing pairs left right others with
  | nil =>
      cases foreshadow
      exact .of_ok abreast .nil
  | cons part rest ih =>
      cases foreshadow with
      | waiting awaits _ => exact awaits.of_nothing.elim
      | reject => exact .error (.rejected _ _) abreast.source
      | alike alike foreshadow =>
          refine .joinMap ?_ fun within abreast => ih abreast (foreshadow.mono within)
          cases alike with
          | keep alike => exact .of_ok abreast alike.toTerm.single
          | invoke alike => exact lockstep.reduceInvocation strict abreast alike

theorem Lockstep.reduceApply (lockstep : Lockstep fork sound recurse)
    (strict : TicketSource.Strict sound) (abreast : left.Abreast fork sound pairs right)
    {apply other : Apply} (alike : apply.Alike nothingWaits pairs other) :
    Concurs fork sound pairs Compound.Tallies (Reduction.reduceApply recurse apply left)
      (Reduction.reduceApply recurse other right) := by
  unfold Reduction.reduceApply
  refine (lockstep abreast alike.task).bind
    fun {_ task taskTwin _ _} within abreast tasks => ?_
  refine (lockstep.mapEntries abreast (alike.bindings.mono within)).bind
    fun {_ bindings bindingsTwin _ _} further abreast ⟨names, arguments⟩ => ?_
  have expanded : Apply.Alike nothingWaits _ { apply with task, bindings }
      { other with task := taskTwin, bindings := bindingsTwin } :=
    { task := tasks.mono further
      bindings := arguments
      distinct := by rw [OrderedMap.Distinct, names]; exact alike.distinct
      channel := alike.channel
      rest := alike.rest }
  exact lockstep.joinParts strict abreast expanded.expand

end Applications

section Curries

variable {task taskTwin : Compound} {bindings others : Bindings}

theorem concurs_bindParams (abreast : left.Abreast fork sound pairs right)
    {prototype : Prototype} {body other : BlockId} (paired : pairs body other)
    (arguments : bindings.Tallies pairs others) :
    Concurs fork sound pairs
      (fun pairs native twin => Lambda.Alike pairs (.native native) (.native twin))
      (bindParams ⟨prototype, body⟩ bindings left)
      (bindParams ⟨prototype, other⟩ others right) := by
  rw [bindParams_eq, bindParams_eq, arguments.keys]
  exact (Concurs.clone abreast paired arguments).bind
    fun _ abreast fresh => .of_ok abreast (.native fresh)

theorem concurs_closeCurry (abreast : left.Abreast fork sound pairs right)
    (curry twin : Curry) (tasks : task.Tallies pairs taskTwin)
    (arguments : bindings.Tallies pairs others) :
    Concurs fork sound pairs Compound.Tallies (closeCurry curry task bindings left)
      (closeCurry twin taskTwin others right) := by
  have alike := Compound.Tallies.forall₂ tasks
  match alike with
  | .nil => exact .of_reject abreast _ _
  | .cons here .nil =>
      rcases here.lambda_cases with
          ⟨lambda, lambdaTwin, rfl, rfl, lambdas⟩ | ⟨unlike, unlikeTwin⟩
      · cases lambdas with
        | foreign lambda => exact .of_reject abreast _ _
        | native paired =>
            exact (concurs_bindParams abreast paired arguments).bind
              fun _ abreast natives => .of_ok abreast (Term.Alike.lambda natives).single
      · rw [closeCurry_other curry unlike,
          closeCurry_other twin unlikeTwin, here.isNormal]
        split
        · exact .of_reject abreast _ _
        · exact .of_ok abreast (Term.Alike.curry tasks arguments).single
  | .cons _ (.cons _ _) =>
      rw [closeCurry_many, closeCurry_many]
      exact .of_ok abreast (Term.Alike.curry tasks arguments).single

theorem Lockstep.reduceCurry (lockstep : Lockstep fork sound recurse)
    (abreast : left.Abreast fork sound pairs right)
    (tasks : task.Tallies pairs taskTwin) (arguments : bindings.Tallies pairs others) :
    Concurs fork sound pairs Compound.Tallies
      (Reduction.reduceCurry recurse ⟨some task, bindings⟩ left)
      (Reduction.reduceCurry recurse ⟨some taskTwin, others⟩ right) := by
  have alike := Compound.Tallies.forall₂ tasks
  match alike with
  | .nil => exact .of_reject abreast _ _
  | .cons here .nil =>
      refine (lockstep abreast here.single).bind fun within abreast tasks => ?_
      refine (lockstep.mapEntries abreast (arguments.mono within)).bind
        fun further abreast ⟨_, arguments⟩ => ?_
      exact concurs_closeCurry abreast _ _ (tasks.mono further) arguments
  | .cons _ (.cons _ _) => exact .of_ok abreast (Term.Alike.curry tasks arguments).single

end Curries

section Terms

variable [TicketSource σ]

theorem Lockstep.reduceTerm (lockstep : Lockstep fork sound recurse)
    (strict : TicketSource.Strict sound) (abreast : left.Abreast fork sound pairs right)
    {term other : Term} (alike : term.Alike nothingWaits pairs other) :
    Concurs fork sound pairs Compound.Tallies (Reduction.reduceTerm recurse term left)
      (Reduction.reduceTerm recurse other right) := by
  cases alike with
  | atom atomic =>
      cases term with
      | name name => exact lockstep.reduceName abreast name
      | str value => exact .of_ok abreast (Term.Alike.atom rfl).single
      | ticket placeholder => exact concurs_resolve strict abreast placeholder
      | _ => exact absurd atomic Bool.false_ne_true
  | lambda lambdas => exact .of_ok abreast (Term.Alike.lambda lambdas).single
  | @apply task taskTwin bindings others channel rest tasks arguments distinct =>
      have alike : Apply.Alike nothingWaits pairs ⟨task, bindings, channel, rest⟩
          ⟨taskTwin, others, channel, rest⟩ :=
        ⟨tasks, arguments, distinct, rfl, rfl⟩
      exact lockstep.reduceApply strict abreast alike
  | @cond condition conditionTwin prototype channel thenBlock elseBlock thenTwin elseTwin
      conditions thenBlocks elseBlocks =>
      have same : (⟨conditionTwin, prototype, channel, thenTwin, elseTwin⟩ : Cond).prototype =
          (⟨condition, prototype, channel, thenBlock, elseBlock⟩ : Cond).prototype := rfl
      exact lockstep.reduceCond abreast conditions same rfl thenBlocks elseBlocks
  | bare => exact .of_reject abreast _ _
  | curry tasks arguments => exact lockstep.reduceCurry abreast tasks arguments

theorem Lockstep.joinMap (lockstep : Lockstep fork sound recurse)
    (strict : TicketSource.Strict sound) (abreast : left.Abreast fork sound pairs right)
    {terms others : Compound} (tallies : terms.Tallies pairs others) :
    Concurs fork sound pairs Compound.Tallies
      (PassM.joinMap (Reduction.reduceTerm recurse) terms left)
      (PassM.joinMap (Reduction.reduceTerm recurse) others right) := by
  induction terms generalizing pairs left right others with
  | nil =>
      cases tallies
      exact .of_ok abreast .nil
  | cons term rest ih =>
      cases tallies with
      | waiting awaits _ => exact awaits.of_nothing.elim
      | alike here later =>
          exact .joinMap (lockstep.reduceTerm strict abreast here)
            fun within abreast => ih abreast (later.mono within)

/-- At every depth the reduction keeps two runs abreast. -/
theorem lockstep_reduce (strict : TicketSource.Strict sound) (fork : Fork) (depth : Nat) :
    Lockstep fork sound (reduce depth : Compound → PassM σ Compound) := by
  induction depth with
  | zero => exact fun abreast _ => .error .exhausted abreast.source
  | succ depth ih => exact fun abreast tallies => ih.joinMap strict abreast tallies

end Terms

end Reduction

end TicketFlow
