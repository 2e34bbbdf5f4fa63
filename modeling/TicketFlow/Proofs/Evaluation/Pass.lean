import TicketFlow.Proofs.Evaluation.Resume

namespace TicketFlow

/-! Passes over plain compounds, backed by an oracle.

A pass over plain compounds makes no blocks and enters no scopes; nothing but
the source of its tickets changes.  Names lead to no circle, so none is met
while it is being resolved.
-/

variable {σ : Type}

/-- A pass that may resolve the names. -/
structure Pass.Ready (lookup : String → Option Compound) (consumer : ConsumerId)
    (query : QueryId) (sound : σ → Prop) (names : List String)
    (pass : Pass σ) : Prop where
  consumer : pass.consumer = consumer
  query : pass.query = query
  sound : sound pass.source
  reads : ∀ name, pass.arena.lookup pass.scope name = .ok (lookup name)
  resolving :
    ∀ key ∈ pass.resolving, ∀ name ∈ names, Relation.TransGen (Mentions lookup) key.2 name

/-- Nothing but the source changes, and that stays sound. -/
def Pass.Moves (sound : σ → Prop) (before after : Pass σ) : Prop :=
  (∃ source, after = { before with source }) ∧ (sound before.source → sound after.source)

variable {lookup : String → Option Compound} {consumer : ConsumerId} {query : QueryId}
  {sound : σ → Prop} {names : List String}

theorem Pass.Moves.refl (pass : Pass σ) : Pass.Moves sound pass pass :=
  ⟨⟨pass.source, rfl⟩, id⟩

theorem Pass.Moves.trans {first second third : Pass σ}
    (left : Pass.Moves sound first second) (right : Pass.Moves sound second third) :
    Pass.Moves sound first third := by
  obtain ⟨⟨_, rfl⟩, leftSound⟩ := left
  obtain ⟨⟨source, rfl⟩, rightSound⟩ := right
  exact ⟨⟨source, rfl⟩, fun given => rightSound (leftSound given)⟩

theorem Pass.Ready.moves {before after : Pass σ}
    (ready : before.Ready lookup consumer query sound names)
    (moves : Pass.Moves sound before after) :
    after.Ready lookup consumer query sound names := by
  obtain ⟨⟨source, rfl⟩, kept⟩ := moves
  exact { ready with sound := kept ready.sound }

theorem Pass.steady :
    PassM.Steady (Pass.Moves sound) (Pass.Ready lookup consumer query sound names) :=
  ⟨Pass.Moves.refl, Pass.Moves.trans, Pass.Ready.moves⟩

theorem Pass.Ready.subset {pass : Pass σ} {fewer : List String}
    (ready : pass.Ready lookup consumer query sound names)
    (subset : ∀ name ∈ fewer, name ∈ names) :
    pass.Ready lookup consumer query sound fewer :=
  { ready with
    resolving := fun key member name inside =>
      ready.resolving key member name (subset name inside) }

/-- What an action does to a pass over plain compounds, and the value it has. -/
abbrev PassM.Yields {α : Type} (lookup : String → Option Compound) (consumer : ConsumerId)
    (query : QueryId) (sound : σ → Prop) (names : List String) (good : α → Prop)
    (total : Prop) (action : PassM σ α) : Prop :=
  PassM.Ensures (Pass.Moves sound) (Pass.Ready lookup consumer query sound names)
    (fun _ => good) total action

section Names

variable {pass : Pass σ} {recurse : Compound → PassM σ Compound}
  {name : String} {total : Prop}

theorem Reduction.reduceName_unbound
    (ready : pass.Ready lookup consumer query sound names)
    (unbound : lookup name = none) :
    reduceName recurse name pass = (.ok [.name name], pass) := by
  have found := ready.reads name
  rw [unbound] at found
  simp [reduceName, PassM.bind_run, PassM.view, PassM.inspect, found]

theorem Pass.Ready.fresh (ready : pass.Ready lookup consumer query sound [name])
    (acyclic : Acyclic lookup) : (pass.scope, name) ∉ pass.resolving :=
  fun member => acyclic name (ready.resolving _ member name List.mem_cons_self)

/-- A bound name of plain compounds is not being resolved when it is met. -/
theorem Reduction.reduceName_bound {bound : Compound} (acyclic : Acyclic lookup)
    (ready : pass.Ready lookup consumer query sound [name])
    (bindsTo : lookup name = some bound) :
    reduceName recurse name pass =
      PassM.whileResolving (pass.scope, name) (recurse bound) pass := by
  have found := ready.reads name
  rw [bindsTo] at found
  have fresh := ready.fresh acyclic
  simp [reduceName, PassM.bind_run, PassM.view, PassM.inspect, found, fresh]

theorem Pass.Ready.resolve {bound : Compound}
    (ready : pass.Ready lookup consumer query sound [name])
    (bindsTo : lookup name = some bound) :
    ({ pass with resolving := (pass.scope, name) :: pass.resolving } : Pass σ).Ready
      lookup consumer query sound (Term.namesOfAll bound) :=
  { ready with
    resolving := by
      intro key member inner inside
      have mentions : Mentions lookup name inner := ⟨bound, bindsTo, inside⟩
      rcases List.mem_cons.mp member with rfl | before
      · exact .single mentions
      · exact (ready.resolving key before name List.mem_cons_self).tail mentions }

/-- Resolving a bound name yields what reducing its value yields. -/
theorem Reduction.yields_reduceName {bound : Compound} {good : Compound → Prop}
    (acyclic : Acyclic lookup) (bindsTo : lookup name = some bound)
    (value : PassM.Yields lookup consumer query sound
      (Term.namesOfAll bound) good total (recurse bound)) :
    PassM.Yields lookup consumer query sound [name] good total (reduceName recurse name) := by
  intro pass ready
  have same : reduceName recurse name pass = _ := reduceName_bound acyclic ready bindsTo
  have fresh := ready.fresh acyclic
  obtain ⟨⟨⟨source, moved⟩, kept⟩, fine, ends⟩ := value _ (ready.resolve bindsTo)
  rw [same]
  unfold PassM.whileResolving
  cases outcome : recurse bound
    { pass with resolving := (pass.scope, name) :: pass.resolving } with
  | mk result after =>
      rw [outcome] at moved kept fine ends
      simp only at moved kept fine ends ⊢
      subst moved
      have restored : ((pass.scope, name) :: pass.resolving).filter
          (fun other => other != (pass.scope, name)) = pass.resolving := by
        rw [List.filter_cons_of_neg (by simp)]
        refine List.filter_eq_self.mpr fun other member => ?_
        simp only [bne_iff_ne, ne_eq]
        rintro rfl
        exact fresh member
      exact ⟨⟨⟨source, by rw [restored]⟩, kept⟩, fine, ends⟩

end Names

/-- Whatever the source of a pass answers, the oracle agrees with.  An exact source is
told all that the oracle knows, a complete one refuses no invocation that the oracle
has a placeholder for. -/
structure Backs [TicketSource σ] (oracle : Oracle) (consumer : ConsumerId)
    (query : QueryId) (sound : σ → Prop) (exact complete : Prop) : Prop where
  request : ∀ {source after : σ} {apply placeholder}, sound source →
    TicketSource.request source consumer query apply = .ok (placeholder, after) →
    sound after ∧ ∃ known, oracle.placeholder apply = some known ∧
      oracle.settle known = oracle.settle placeholder ∧ (exact → known = placeholder)
  read :
    ∀ {source : σ}
    {id channel}, sound source → sound (TicketSource.read source id channel).2
  output : ∀ {source : σ} {id channel value}, sound source →
    TicketSource.output? source id channel = some value →
    oracle.output? id channel = some value
  literal : oracle.Literal
  told : ∀ {source : σ} {id channel}, exact → sound source →
    TicketSource.output? source id channel = oracle.output? id channel
  answers :
    ∀ {source : σ} {apply known}, complete → sound source →
    oracle.placeholder apply = some known → ∃ placeholder after,
    TicketSource.request source consumer query apply = .ok (placeholder, after)

section Passes

variable {oracle : Oracle} {exact complete total : Prop} {depth : Nat}

theorem PassM.Yields.bind {α β : Type} {good : α → Prop}
    {better : β → Prop} {action : PassM σ α} {next : α → PassM σ β}
    (first : PassM.Yields lookup consumer query sound names good total action)
    (second : ∀ value, good value →
      PassM.Yields lookup consumer query sound names better total (next value)) :
    PassM.Yields lookup consumer query sound names better total (action >>= next) :=
  PassM.Ensures.bind Pass.steady first
    fun value pass given => second value given.2 pass given.1

theorem PassM.yields_joinMap {β : Type} {f : β → PassM σ Compound}
    {values : List β} {fine : β → Compound → Prop}
    (each : ∀ value ∈ values,
      PassM.Yields lookup consumer query sound names (fine value) total (f value)) :
    PassM.Yields lookup consumer query sound names (PassM.Joined fine values) total
      (PassM.joinMap f values) :=
  PassM.ensures_joinMap Pass.steady (fun _ => id) each

theorem PassM.yields_mapEntries {α β κ : Type} {f : β → PassM σ α}
    {entries : List (κ × β)} {fine : β → α → Prop}
    (each : ∀ entry ∈ entries,
      PassM.Yields lookup consumer query sound names (fine entry.2) total (f entry.2)) :
    PassM.Yields lookup consumer query sound names
      (List.Forall₂ (fun before after => after.1 = before.1 ∧ fine before.2 after.2) entries)
      total (PassM.mapEntries f entries) :=
  PassM.ensures_mapEntries Pass.steady (fun _ => id) each

variable [TicketSource σ]

/-- An invocation that is asked for comes to its placeholder, or to the
output that is known. -/
theorem Backs.yields_ask (backs : Backs oracle consumer query sound exact complete)
    {invocation : Invocation} {output : String}
    (offered : invocation.lambda.prototype.output? invocation.channel = some output)
    (normal : invocation.toApply.areArgumentsNormal = true)
    (accepted : total →
      complete ∧ ∃ known, oracle.placeholder invocation.toApply = some known) :
    PassM.Yields lookup consumer query sound names
      (PartBecomes oracle exact (.invoke invocation)) total
      (Reduction.requestTicket invocation.toApply >>= Reduction.resolve) := by
  intro pass ready
  obtain rfl := ready.consumer
  obtain rfl := ready.query
  rw [PassM.bind_run, Reduction.requestTicket]
  cases asked : TicketSource.request pass.source pass.consumer pass.query
    invocation.toApply with
  | error fault =>
      refine ⟨Pass.Moves.refl pass, fun value same => by simp at same, fun always => ?_⟩
      obtain ⟨holds, known, issued⟩ := accepted always
      obtain ⟨placeholder, after, granted⟩ := backs.answers holds ready.sound issued
      simp [granted] at asked
  | ok granted =>
      obtain ⟨placeholder, source⟩ := granted
      obtain ⟨stillSound, known, issued, agree, same⟩ := backs.request ready.sound asked
      refine ⟨⟨⟨_, rfl⟩, fun _ => backs.read stillSound⟩, fun value found => ?_,
        fun _ => ⟨_, rfl⟩⟩
      simp only [Reduction.resolve_run, Except.ok.injEq] at found
      refine .asked offered normal issued agree ?_ fun told => ?_
      · cases known : TicketSource.output? source placeholder.ticket placeholder.channel with
        | none => exact .inl (by simpa [known] using found.symm)
        | some result =>
            have sameResult : result = value := by simpa [known] using found
            exact .inr (sameResult ▸ backs.output stillSound known)
      · rw [same told, Oracle.settle, ← backs.told told stillSound]
        exact found.symm

theorem Backs.yields_part (backs : Backs oracle consumer query sound exact complete)
    {recurse : Compound → PassM σ Compound} {part : Part}
    (foreign : ∀ invocation, part = .invoke invocation →
      ∃ lambda, invocation.lambda = .foreign lambda)
    (accepted : total →
      complete ∧ oracle.fallback = none ∧ ∃ value, oracle.evalPart part = some value) :
    PassM.Yields lookup consumer query sound names (PartBecomes oracle exact part) total
      (Reduction.reducePart recurse part) := by
  cases part with
  | keep kept => exact PassM.ensures_pure Pass.steady fun _ _ => .keep
  | reject error =>
      refine PassM.ensures_halt Pass.steady fun always => ?_
      obtain ⟨_, strict, value, found⟩ := accepted always
      simp [Oracle.evalPart, strict] at found
  | invoke invocation =>
      obtain ⟨lambda, bindings, channel⟩ := invocation
      obtain ⟨lambda, rfl⟩ := foreign _ rfl
      simp only [Reduction.reducePart, Reduction.reduceInvocation]
      simp only [Oracle.evalPart, Oracle.evalInvocation] at accepted
      cases offered : (Lambda.foreign lambda).prototype.output? channel with
      | none =>
          refine PassM.ensures_halt Pass.steady fun always => ?_
          obtain ⟨_, strict, value, found⟩ := accepted always
          simp [offered, strict] at found
      | some output =>
          simp only [Reduction.require, pure_bind]
          simp only [offered] at accepted
          split
          next normal =>
            refine backs.yields_ask offered normal fun always => ?_
            obtain ⟨holds, strict, value, found⟩ := accepted always
            rw [if_pos normal] at found
            split at found
            next known issued => exact ⟨holds, known, issued⟩
            next => simp [strict] at found
          next waits =>
            exact PassM.ensures_pure Pass.steady
              fun _ _ => .waits offered (Bool.eq_false_iff.mpr waits)

/-- A pass that refuses nothing has a result where the oracle rejects nothing. -/
def Total (oracle : Oracle) (lookup : String → Option Compound) (complete : Prop)
    (depth : Nat) (compound : Compound) : Prop :=
  complete ∧
    oracle.fallback = none ∧ ∃ value, oracle.eval lookup depth compound = some value

omit [TicketSource σ] in
/-- A part that has a value when it is evaluated further is not rejected before. -/
theorem Part.accepted_of_later {part : Part} {value : Compound} (positive : 0 < depth)
    (found : joinAll oracle.evalPart (part.later (oracle.value lookup depth)) = some value) :
    ∃ value, oracle.evalPart part = some value := by
  have keeps : KeepsValues (oracle.value lookup depth) := Oracle.keepsValues positive
  cases part with
  | keep kept => exact ⟨_, rfl⟩
  | reject error =>
      obtain ⟨accepted, _⟩ := joinAll_eq_some_iff.mp found
      exact accepted _ List.mem_cons_self
  | invoke invocation =>
      obtain ⟨accepted, _⟩ := joinAll_eq_some_iff.mp found
      obtain ⟨value, later⟩ := accepted _ List.mem_cons_self
      by_cases normal : invocation.toApply.areArgumentsNormal = true
      · rw [Invocation.advance_of_normal keeps normal] at later
        exact ⟨value, later⟩
      · simp only [Oracle.evalPart, Oracle.evalInvocation, Invocation.advance] at later ⊢
        cases offered : invocation.lambda.prototype.output? invocation.channel with
        | none => exact ⟨value, by simpa [offered] using later⟩
        | some output =>
            simp only [if_neg normal]
            exact ⟨_, rfl⟩

omit [TicketSource σ] in
theorem ReducedApply.accepted {before after : Apply} {part : Part}
    (reduced : ReducedApply oracle lookup exact depth before after)
    (plain : before.toTerm.IsPlain lookup)
    (total : Total oracle lookup complete (depth + 1) [before.toTerm])
    (member : part ∈ after.expand) :
    complete ∧ oracle.fallback = none ∧ ∃ value, oracle.evalPart part = some value := by
  obtain ⟨holds, strict, value, found⟩ := total
  obtain ⟨evaluates, expanded⟩ := Oracle.eval_apply_eq_some_iff.mp (reduced.same found)
  rw [Oracle.evalApply_advance (Oracle.keepsValues evaluates.positive)
    (reduced.uncrowded plain)] at expanded
  obtain ⟨all, _⟩ := joinAll_eq_some_iff.mp expanded
  obtain ⟨later, here⟩ := all part member
  exact ⟨holds, strict, Part.accepted_of_later evaluates.positive here⟩

/-- Everything in the application is reduced, then its parts are worked off. -/
theorem Backs.yields_apply (backs : Backs oracle consumer query sound exact complete)
    (recurse : ∀ {compound : Compound}, Term.AreAllPlain lookup compound →
      PassM.Yields lookup consumer query sound (Term.namesOfAll compound)
        (Resumed oracle lookup exact depth compound)
        (Total oracle lookup complete depth compound) (Reduction.reduce depth compound))
    {apply : Apply} (plain : apply.toTerm.IsPlain lookup) :
    PassM.Yields lookup consumer query sound apply.toTerm.names
      (Resumed oracle lookup exact (depth + 1) [apply.toTerm])
      (Total oracle lookup complete (depth + 1) [apply.toTerm])
      (Reduction.reduceApply (Reduction.reduce depth) apply) := by
  have subtotal : ∀ {compound : Compound},
      (∀ term ∈ compound, term ∈ apply.task ∨ BoundIn apply.bindings term) →
      Total oracle lookup complete (depth + 1) [apply.toTerm] →
      Total oracle lookup complete depth compound := by
    rintro compound inside ⟨holds, strict, value, found⟩
    obtain ⟨evaluates, _⟩ := Oracle.eval_apply_eq_some_iff.mp found
    refine ⟨holds, strict, _,
      Oracle.eval_eq_some_iff.mpr ⟨evaluates.positive, fun term member => ?_, rfl⟩⟩
    exact (inside term member).elim (evaluates.task term) (evaluates.bindings term)
  have taskYields : PassM.Yields lookup consumer query sound apply.toTerm.names
      (Resumed oracle lookup exact depth apply.task)
      (Total oracle lookup complete (depth + 1) [apply.toTerm])
      (Reduction.reduce depth apply.task) := by
    refine (recurse plain.1).mono (fun pass ready => ready.subset fun name member => ?_)
      (fun _ _ => id) (subtotal fun term member => .inl member)
    simp only [Apply.toTerm, Term.names, List.mem_append]
    exact .inl member
  have bindingsYield : PassM.Yields lookup consumer query sound apply.toTerm.names
      (ResumedBindings oracle lookup exact depth apply.bindings)
      (Total oracle lookup complete (depth + 1) [apply.toTerm])
      (PassM.mapEntries (Reduction.reduce depth) apply.bindings) := by
    refine PassM.yields_mapEntries fun binding member => ?_
    have bindingPlain : Term.AreAllPlain lookup binding.2 := by
      refine Term.areAllPlain_iff.mpr fun term inside => ?_
      exact Term.areBindingsPlain_iff.mp plain.2.1 term ⟨binding, member, inside⟩
    refine (recurse bindingPlain).mono (fun pass ready => ready.subset fun name inside => ?_)
      (fun _ _ => id) (subtotal fun term inside => .inr ⟨binding, member, inside⟩)
    simp only [Apply.toTerm, Term.names, List.mem_append]
    exact .inr (Term.mem_namesOfBindings_iff.mpr ⟨binding, member, inside⟩)
  refine taskYields.bind fun task taskResumed =>
    bindingsYield.bind fun bindings bindingsResumed => ?_
  have reduced : ReducedApply oracle lookup exact depth apply { apply with task, bindings } :=
    ⟨rfl, rfl, taskResumed, bindingsResumed⟩
  have partsYield : PassM.Yields lookup consumer query sound apply.toTerm.names
      (PassM.Joined (PartBecomes oracle exact) (Apply.expand { apply with task, bindings }))
      (Total oracle lookup complete (depth + 1) [apply.toTerm])
      (PassM.joinMap (Reduction.reducePart (Reduction.reduce depth))
        (Apply.expand { apply with task, bindings })) := by
    refine PassM.yields_joinMap fun part member => ?_
    refine backs.yields_part ?_ fun total => reduced.accepted plain total member
    rintro invocation rfl
    exact Term.foreign_of_isPlain (taskResumed.plain _ (Apply.stems_of_mem_expand member).1)
  exact partsYield.mono (fun _ => id) (fun _ _ => Resumed.apply backs.literal plain reduced) id

theorem Backs.yields_term (backs : Backs oracle consumer query sound exact complete)
    (scope : PlainScope lookup)
    (recurse : ∀ {compound : Compound}, Term.AreAllPlain lookup compound →
      PassM.Yields lookup consumer query sound (Term.namesOfAll compound)
        (Resumed oracle lookup exact depth compound)
        (Total oracle lookup complete depth compound) (Reduction.reduce depth compound))
    {term : Term} (plain : term.IsPlain lookup) :
    PassM.Yields lookup consumer query sound term.names
      (Resumed oracle lookup exact (depth + 1) [term])
      (Total oracle lookup complete (depth + 1) [term])
      (Reduction.reduceTerm (Reduction.reduce depth) term) := by
  cases term with
  | cond => exact plain.elim
  | curry => exact plain.elim
  | apply task bindings channel rest =>
      have applyPlain : (Apply.mk task bindings channel rest).toTerm.IsPlain lookup :=
        plain
      exact backs.yields_apply recurse applyPlain
  | str value =>
      refine PassM.ensures_pure Pass.steady fun _ _ => .stays trivial (by simp) ?_ ?_ ?_
      · exact fun _ => Oracle.eval_singleton
      · exact ⟨_, Oracle.eval_singleton⟩
      · exact fun _ => Oracle.eval_singleton
  | lambda value =>
      refine PassM.ensures_pure Pass.steady fun _ _ => .stays plain (by simp) ?_ ?_ ?_
      · exact fun _ => Oracle.eval_singleton
      · exact ⟨_, Oracle.eval_singleton⟩
      · exact fun _ => Oracle.eval_singleton
  | name name =>
      cases bindsTo : lookup name with
      | none =>
          have itself : oracle.eval lookup (depth + 1) [.name name] = some [.name name] := by
            rw [Oracle.eval_singleton, Oracle.evalTerm, bindsTo]
          intro pass ready
          rw [Reduction.reduceTerm, Reduction.reduceName_unbound ready bindsTo]
          refine ⟨Pass.Moves.refl pass, fun value same => ?_, fun _ => ⟨_, rfl⟩⟩
          obtain rfl := Except.ok.inj same
          exact .stays trivial (by rintro _ ⟨rfl⟩; exact bindsTo) (fun _ => itself)
            ⟨_, itself⟩ fun _ => itself
      | some bound =>
          refine Reduction.yields_reduceName scope.acyclic bindsTo ?_
          refine (recurse (scope.plain bindsTo)).mono (fun _ => id)
            (fun _ _ => Resumed.name bindsTo) ?_
          rintro ⟨holds, strict, value, found⟩
          rw [Oracle.eval_singleton, Oracle.evalTerm, bindsTo] at found
          exact ⟨holds, strict, value, found⟩
  | ticket placeholder =>
      have settles : oracle.eval lookup (depth + 1) [.ticket placeholder] =
          some (oracle.settle placeholder) :=
        Oracle.eval_singleton
      intro pass ready
      rw [Reduction.reduceTerm, Reduction.resolve_run]
      refine ⟨⟨⟨_, rfl⟩, fun fine => backs.read fine⟩, fun value same => ?_, fun _ => ⟨_, rfl⟩⟩
      obtain rfl := Except.ok.inj same
      cases known : TicketSource.output? pass.source placeholder.ticket
        placeholder.channel with
      | none =>
          refine .stays trivial (by simp) (fun told => ?_) ⟨_, settles⟩ fun settled => ?_
          · rw [settles, Oracle.settle, ← backs.told told ready.sound, known]
            rfl
          · simp [Term.IsSettled, Term.holdsPlaceholder] at settled
      | some value => exact .output backs.literal (backs.output ready.sound known)

/-- A pass over a plain compound leaves something that has the same
value, and can be resumed. -/
theorem Backs.yields_reduce (backs : Backs oracle consumer query sound exact complete)
    (scope : PlainScope lookup) (depth : Nat) {compound : Compound}
    (plain : Term.AreAllPlain lookup compound) :
    PassM.Yields lookup consumer query sound (Term.namesOfAll compound)
      (Resumed oracle lookup exact depth compound)
      (Total oracle lookup complete depth compound) (Reduction.reduce depth compound) := by
  induction depth generalizing compound with
  | zero =>
      refine PassM.ensures_halt Pass.steady ?_
      rintro ⟨_, _, value, found⟩
      simp [Oracle.eval] at found
  | succ depth ih =>
      have termsYield : PassM.Yields lookup consumer query sound (Term.namesOfAll compound)
          (PassM.Joined (fun term => Resumed oracle lookup exact (depth + 1) [term]) compound)
          (Total oracle lookup complete (depth + 1) compound)
          (Reduction.reduce (depth + 1) compound) := by
        refine PassM.yields_joinMap fun term member => ?_
        refine (backs.yields_term scope ih (Term.areAllPlain_iff.mp plain term member)).mono
          (fun pass ready => ready.subset fun name inside => ?_) (fun _ _ => id) ?_
        · exact Term.mem_namesOfAll_iff.mpr ⟨term, member, inside⟩
        · rintro ⟨holds, strict, value, found⟩
          exact ⟨holds, strict, (Oracle.eval_eq_some_iff.mp found).2.1 term member⟩
      exact termsYield.mono (fun _ => id) (fun _ _ => Resumed.joined depth.succ_pos) id

end Passes

end TicketFlow
