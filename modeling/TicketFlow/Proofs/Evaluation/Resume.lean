import TicketFlow.Proofs.Evaluation.Fragment
import TicketFlow.Proofs.Reduction.Action
import TicketFlow.Reduction.Reduce

namespace TicketFlow

/-! A pass of reduction comes closer to the value of a plain compound.

What a pass leaves has the value that it started from, and can be taken up by
another pass.  A term without placeholders that a pass leaves is its own value.
-/

/-- How the residual of a compound relates to it; it is the value itself if the pass was
told as much as the oracle. -/
structure Resumed (oracle : Oracle) (lookup : String → Option Compound) (exact : Prop)
    (depth : Nat) (compound residual : Compound) : Prop where
  positive : 0 < depth
  value : exact → oracle.eval lookup depth compound = some residual
  same :
    ∀ {value}, oracle.eval lookup depth compound = some value →
    oracle.eval lookup depth residual = some value
  total : oracle.fallback ≠ none → ∃ value, oracle.eval lookup depth compound = some value
  plain : ∀ term ∈ residual, term.IsPlain lookup
  unbound : ∀ name, .name name ∈ residual → lookup name = none
  resolved : ∃ alternatives, Resolved lookup compound alternatives ∧
    residual.filterMap Term.lambda? = alternatives.filterMap Term.lambda? ∧
    ((∀ term ∈ alternatives, ∃ lambda, term = .lambda lambda) → residual = alternatives)
  stable :
    ∀ term ∈ residual, term.IsSettled → oracle.eval lookup depth [term] = some [term]

variable {oracle : Oracle} {lookup : String → Option Compound} {exact : Prop}
  {depth : Nat} {compound residual : Compound}

section Compounds

theorem Resumed.nil (positive : 0 < depth) : Resumed oracle lookup exact depth [] [] where
  positive := positive
  value _ := Oracle.eval_eq_some_iff.mpr ⟨positive, by simp, rfl⟩
  same := id
  total _ := ⟨[], Oracle.eval_eq_some_iff.mpr ⟨positive, by simp, rfl⟩⟩
  plain := by simp
  unbound := by simp
  resolved := ⟨[], .nil, rfl, fun _ => rfl⟩
  stable := by simp

theorem Resumed.append {more after : Compound}
    (head : Resumed oracle lookup exact depth compound residual)
    (tail : Resumed oracle lookup exact depth more after) :
    Resumed oracle lookup exact depth (compound ++ more) (residual ++ after) where
  positive := head.positive
  value told := Oracle.eval_append (head.value told) (tail.value told)
  same := by
    intro value found
    obtain ⟨positive, all, rfl⟩ := Oracle.eval_eq_some_iff.mp found
    rw [List.forall_mem_append] at all
    rw [List.flatMap_append]
    exact Oracle.eval_append (head.same (Oracle.eval_eq_some_iff.mpr ⟨positive, all.1, rfl⟩))
      (tail.same (Oracle.eval_eq_some_iff.mpr ⟨positive, all.2, rfl⟩))
  total lenient := by
    obtain ⟨first, found⟩ := head.total lenient
    obtain ⟨second, last⟩ := tail.total lenient
    exact ⟨first ++ second, Oracle.eval_append found last⟩
  plain := List.forall_mem_append.mpr ⟨head.plain, tail.plain⟩
  unbound name
    member := (List.mem_append.mp member).elim (head.unbound name) (tail.unbound name)
  resolved := by
    obtain ⟨first, firstResolved, firstLambdas, firstWhole⟩ := head.resolved
    obtain ⟨second, secondResolved, secondLambdas, secondWhole⟩ := tail.resolved
    refine ⟨first ++ second, firstResolved.append secondResolved, ?_, fun all => ?_⟩
    · rw [List.filterMap_append, List.filterMap_append, firstLambdas, secondLambdas]
    · rw [List.forall_mem_append] at all
      rw [firstWhole all.1, secondWhole all.2]
  stable := List.forall_mem_append.mpr ⟨head.stable, tail.stable⟩

theorem Resumed.joined (positive : 0 < depth)
    (joined : PassM.Joined (fun term => Resumed oracle lookup exact depth [term]) compound
      residual) : Resumed oracle lookup exact depth compound residual := by
  induction joined with
  | nil => exact .nil positive
  | cons head _ ih => exact head.append ih

/-- A task that is reduced has no correlated lambda next to another alternative. -/
theorem Resumed.separate (resumed : Resumed oracle lookup exact depth compound residual)
    (separate : ∀ alternatives, Resolved lookup compound alternatives →
      Separate alternatives) : Separate residual := by
  intro lambda member correlated
  obtain ⟨alternatives, resolved, lambdas, whole⟩ := resumed.resolved
  have among : lambda ∈ alternatives.filterMap Term.lambda? := by
    rw [← lambdas]
    exact List.mem_filterMap.mpr ⟨_, member, rfl⟩
  obtain ⟨term, inside, same⟩ := List.mem_filterMap.mp among
  have isLambda : term = .lambda lambda := by
    cases term <;> simp_all [Term.lambda?]
  subst isLambda
  have only := separate alternatives resolved lambda inside correlated
  rw [whole fun term present => ?_, only]
  rw [only, List.mem_singleton] at present
  exact ⟨lambda, present⟩

end Compounds

section Terms

/-- A term that stays as it is. -/
theorem Resumed.stays {term : Term} (plain : term.IsPlain lookup)
    (unbound : ∀ name, term = .name name → lookup name = none)
    (value : exact → oracle.eval lookup (depth + 1) [term] = some [term])
    (total : ∃ value, oracle.eval lookup (depth + 1) [term] = some value)
    (stable : term.IsSettled → oracle.eval lookup (depth + 1) [term] = some [term]) :
    Resumed oracle lookup exact (depth + 1) [term] [term] where
  positive := depth.succ_pos
  value := value
  same := id
  total _ := total
  plain := by simpa using plain
  unbound name member := unbound name (List.mem_singleton.mp member).symm
  resolved := ⟨[term], .other unbound .nil, rfl, fun _ => rfl⟩
  stable other member := (List.mem_singleton.mp member) ▸ stable

theorem Oracle.eval_literals {value : Compound}
    (literal : ∀ term ∈ value, ∃ text, term = .str text) :
    oracle.eval lookup (depth + 1) value = some value := by
  have normal : Compound.isNormal value = true := by
    refine List.all_eq_true.mpr fun term member => ?_
    obtain ⟨text, rfl⟩ := literal term member
    rfl
  have keeps : KeepsValues (oracle.value lookup (depth + 1)) :=
    Oracle.keepsValues depth.succ_pos
  refine Oracle.eval_eq_some_iff.mpr
    ⟨depth.succ_pos, fun term member => ?_, (keeps.flatMap normal).symm⟩
  obtain ⟨text, rfl⟩ := literal term member
  exact ⟨_, Oracle.eval_singleton⟩

/-- A name stands for what it is bound to, one level further down. -/
theorem Resumed.name {name : String} {bound : Compound} (found : lookup name = some bound)
    (resumed : Resumed oracle lookup exact depth bound residual) :
    Resumed oracle lookup exact (depth + 1) [.name name] residual := by
  have step :
      oracle.eval lookup (depth + 1) [.name name] = oracle.eval lookup depth bound := by
    rw [Oracle.eval_singleton, Oracle.evalTerm, found]
  exact
    { positive := depth.succ_pos
      value := fun told => step.trans (resumed.value told)
      same := fun here => Oracle.eval_mono depth.le_succ (resumed.same (step ▸ here))
      total := fun lenient => step ▸ resumed.total lenient
      plain := resumed.plain
      unbound := resumed.unbound
      resolved := by
        obtain ⟨alternatives, resolved, rest⟩ := resumed.resolved
        refine ⟨alternatives ++ [], .name found resolved .nil, ?_⟩
        rwa [List.append_nil]
      stable := fun term member settled =>
        Oracle.eval_mono depth.le_succ (resumed.stable term member settled) }

end Terms

section Parts

/-- What a pass makes of a part, in agreement with the oracle. -/
inductive PartBecomes (oracle : Oracle) (exact : Prop) : Part → Compound → Prop where
  | keep {kept : Apply} : PartBecomes oracle exact (.keep kept) [kept.toTerm]
  | waits {invocation : Invocation} {output : String} :
      invocation.lambda.prototype.output? invocation.channel = some output →
      invocation.toApply.areArgumentsNormal = false →
      PartBecomes oracle exact (.invoke invocation) [invocation.toApply.toTerm]
  | asked {invocation : Invocation} {output : String}
      {known placeholder : Placeholder} {result : Compound} :
      invocation.lambda.prototype.output? invocation.channel = some output →
      invocation.toApply.areArgumentsNormal = true →
      oracle.placeholder invocation.toApply = some known →
      oracle.settle known = oracle.settle placeholder → result = [.ticket placeholder] ∨
        oracle.output? placeholder.ticket placeholder.channel = some result →
      (exact → result = oracle.settle known) →
      PartBecomes oracle exact (.invoke invocation) result

/-- Every output that the oracle knows is made of strings. -/
def Oracle.Literal (oracle : Oracle) : Prop :=
  ∀ {id channel value}, oracle.output? id channel = some value →
    ∀ term ∈ value, ∃ text, term = .str text

/-- A ticket whose output is known stands for it. -/
theorem Resumed.output {placeholder : Placeholder}
    {value : Compound} (literal : oracle.Literal)
    (known : oracle.output? placeholder.ticket placeholder.channel = some value) :
    Resumed oracle lookup exact (depth + 1) [.ticket placeholder] value := by
  have settles : oracle.eval lookup (depth + 1) [.ticket placeholder] = some value := by
    rw [Oracle.eval_singleton, Oracle.evalTerm, Oracle.settle, known]
    rfl
  have strings := literal known
  refine
    { positive := depth.succ_pos
      value := fun _ => settles
      same := fun found => ?_
      total := fun _ => ⟨value, settles⟩
      plain := fun term member => ?_
      unbound := fun name member => ?_
      resolved := ⟨[.ticket placeholder], .other (by simp) .nil, ?_, fun all => ?_⟩
      stable := fun term member _ => ?_ }
  · rw [settles, Option.some.injEq] at found
    rw [← found]
    exact Oracle.eval_literals strings
  · obtain ⟨text, rfl⟩ := strings term member
    trivial
  · obtain ⟨text, same⟩ := strings _ member
    simp at same
  · have noLambda : ∀ term ∈ value, Term.lambda? term = none := by
      intro term member
      obtain ⟨text, rfl⟩ := strings term member
      rfl
    rw [List.filterMap_eq_nil_iff.mpr noLambda]
    rfl
  · obtain ⟨lambda, same⟩ := all _ List.mem_cons_self
    simp at same
  · obtain ⟨text, rfl⟩ := strings term member
    exact Oracle.eval_singleton

theorem Oracle.eval_issued {placeholder : Placeholder}
    {result : Compound} (literal : oracle.Literal)
    (issued : result = [.ticket placeholder] ∨
      oracle.output? placeholder.ticket placeholder.channel = some result) :
    oracle.eval lookup (depth + 1) result = some (oracle.settle placeholder) := by
  rcases issued with rfl | known
  · exact Oracle.eval_singleton
  · rw [settle, known]
    exact eval_literals (literal known)

theorem Invocation.advance_of_normal {invocation : Invocation}
    {further : Term → Compound} (keeps : KeepsValues further)
    (normal : invocation.toApply.areArgumentsNormal = true) :
    invocation.advance further = invocation := by
  have same : OrderedMap.mapValues (List.flatMap further) invocation.bindings =
      invocation.bindings :=
    OrderedMap.mapValues_eq_self fun binding member =>
      keeps.flatMap (List.all_eq_true.mp normal binding member)
  rw [advance, same]

theorem Invocation.Single.advance {invocation : Invocation} {further : Term → Compound}
    (single : invocation.Single) (keeps : KeepsValues further) :
    (invocation.advance further).Single where
  bound param member := by
    have bound := single.bound param member
    simpa [Invocation.advance] using bound
  picked param member := by
    obtain ⟨value, normal, found, others⟩ := single.picked param member
    refine ⟨value, normal, ?_, fun entry among named => ?_⟩
    · rw [Invocation.advance, OrderedMap.get?_mapValues, found]
      simp [keeps normal]
    · obtain ⟨before, present, rfl⟩ := List.mem_map.mp among
      simp [others before present named, keeps normal]

/-- What a pass makes of a part has the value that the part comes to when it
is evaluated further. -/
theorem PartBecomes.resumes {part : Part} {result value : Compound}
    (becomes : PartBecomes oracle exact part result) (literal : oracle.Literal)
    (positive : 0 < depth)
    (evaluates : ∀ kept, part = .keep kept → Oracle.Evaluates oracle lookup depth kept)
    (invocations : ∀ invocation, part = .invoke invocation →
      invocation.Single ∧ Oracle.Evaluates oracle lookup depth invocation.toApply)
    (found : joinAll oracle.evalPart (part.later (oracle.value lookup depth)) = some value) :
    oracle.eval lookup (depth + 1) result = some value := by
  have keeps : KeepsValues (oracle.value lookup depth) := Oracle.keepsValues positive
  cases becomes with
  | keep => exact Oracle.eval_apply_eq_some_iff.mpr ⟨evaluates _ rfl, found⟩
  | waits offered waits =>
      obtain ⟨single, evaluates⟩ := invocations _ rfl
      refine Oracle.eval_apply_eq_some_iff.mpr ⟨evaluates, ?_⟩
      rw [keeps.advance_invocation, Oracle.evalApply,
        Apply.expand_toApply (single.advance keeps)]
      exact found
  | asked offered normal known agree issued _ =>
      have sameInvocation := Invocation.advance_of_normal keeps normal
      rw [Part.later, sameInvocation] at found
      rw [Oracle.eval_issued literal issued, ← agree, ← found]
      simp [joinAll, Oracle.evalPart, Oracle.evalInvocation, offered, normal, known]

end Parts

section Applications

variable {before after : Apply} {result : Compound}

/-- Bindings that were reduced, each under its name. -/
abbrev ResumedBindings (oracle : Oracle) (lookup : String → Option Compound)
    (exact : Prop) (depth : Nat) (before after : Bindings) : Prop :=
  List.Forall₂ (fun binding reduced => reduced.1 = binding.1 ∧
    Resumed oracle lookup exact depth binding.2 reduced.2) before after

theorem ResumedBindings.mapAll_eval {before after value : Bindings}
    (resumed : ResumedBindings oracle lookup exact depth before after)
    (found : mapAll (oracle.eval lookup depth) before = some value) :
    mapAll (oracle.eval lookup depth) after = some value := by
  induction resumed generalizing value with
  | nil => exact found
  | @cons binding reduced _ _ here _ ih =>
      obtain ⟨name, compound⟩ := binding
      obtain ⟨_, residual⟩ := reduced
      obtain ⟨rfl, resumed⟩ := here
      obtain ⟨head, first, others⟩ := Option.bind_eq_some_iff.mp found
      obtain ⟨tail, last, rfl⟩ := Option.map_eq_some_iff.mp others
      simp [mapAll, resumed.same first, ih last]

theorem ResumedBindings.total {before after : Bindings}
    (resumed : ResumedBindings oracle lookup exact depth before after)
    (lenient : oracle.fallback ≠ none) :
    ∃ value, mapAll (oracle.eval lookup depth) before = some value := by
  induction resumed with
  | nil => exact ⟨[], rfl⟩
  | @cons binding _ _ _ here _ ih =>
      obtain ⟨name, compound⟩ := binding
      obtain ⟨head, first⟩ := here.2.total lenient
      obtain ⟨tail, last⟩ := ih
      have first : oracle.eval lookup depth compound = some head := first
      exact ⟨(name, head) :: tail, by simp [mapAll, first, last]⟩

theorem ResumedBindings.exists_of_boundIn {before after : Bindings} {term : Term}
    (resumed : ResumedBindings oracle lookup exact depth before after)
    (bound : BoundIn after term) :
    ∃ compound residual, Resumed oracle lookup exact depth compound residual ∧
      term ∈ residual := by
  induction resumed with
  | nil => exact absurd bound boundIn_nil
  | cons here _ ih =>
      rcases boundIn_cons.mp bound with inside | later
      · exact ⟨_, _, here.2, inside⟩
      · exact ih later

theorem Oracle.evalApply_total {apply : Apply} (lenient : oracle.fallback ≠ none) :
    ∃ value, oracle.evalApply apply = some value := by
  obtain ⟨stand, fallback⟩ := Option.ne_none_iff_exists'.mp lenient
  refine ⟨_, joinAll_eq_some_iff.mpr ⟨fun part _ => ?_, rfl⟩⟩
  cases part with
  | keep kept => exact ⟨_, rfl⟩
  | reject error => exact ⟨stand, fallback⟩
  | invoke invocation =>
      simp only [evalPart, evalInvocation]
      split
      · exact ⟨stand, fallback⟩
      · split
        · split
          · exact ⟨_, rfl⟩
          · exact ⟨stand, fallback⟩
        · exact ⟨_, rfl⟩

theorem PartBecomes.value_joined {parts : List Part}
    (joined : PassM.Joined (PartBecomes oracle exact) parts result) (told : exact) :
    joinAll oracle.evalPart parts = some result := by
  induction joined with
  | nil => rfl
  | @cons part rest piece tail head _ ih =>
      have here : oracle.evalPart part = some piece := by
        cases head with
        | keep => rfl
        | waits offered waits =>
            simp [Oracle.evalPart, Oracle.evalInvocation, offered, waits]
        | asked offered normal known _ _ value =>
            simp [Oracle.evalPart, Oracle.evalInvocation, offered, normal,
              known, value told]
      rw [joinAll, here, ih]
      rfl

theorem ResumedBindings.value {before after : Bindings}
    (resumed : ResumedBindings oracle lookup exact depth before after) (told : exact) :
    mapAll (oracle.eval lookup depth) before = some after := by
  induction resumed with
  | nil => rfl
  | @cons binding reduced _ _ here _ ih =>
      obtain ⟨name, compound⟩ := binding
      obtain ⟨_, residual⟩ := reduced
      obtain ⟨rfl, resumed⟩ := here
      simp [mapAll, resumed.value told, ih]

theorem PartBecomes.resumes_joined {parts : List Part} {value : Compound}
    (joined : PassM.Joined (PartBecomes oracle exact) parts result)
    (literal : oracle.Literal) (positive : 0 < depth)
    (evaluates : ∀ kept, .keep kept ∈ parts → Oracle.Evaluates oracle lookup depth kept)
    (invocations : ∀ invocation, .invoke invocation ∈ parts →
      invocation.Single ∧ Oracle.Evaluates oracle lookup depth invocation.toApply)
    (found : joinAll (fun part => joinAll oracle.evalPart
      (part.later (oracle.value lookup depth))) parts = some value) :
    oracle.eval lookup (depth + 1) result = some value := by
  induction joined generalizing value with
  | nil => simpa [joinAll, Oracle.eval] using found
  | @cons part rest _ _ head _ ih =>
      obtain ⟨first, here, others⟩ := Option.bind_eq_some_iff.mp found
      obtain ⟨last, later, rfl⟩ := Option.map_eq_some_iff.mp others
      have now :=
        head.resumes literal positive
          (fun kept same => evaluates kept (same ▸ List.mem_cons_self))
          (fun invocation same => invocations invocation (same ▸ List.mem_cons_self)) here
      have rest := ih (fun kept member => evaluates kept (List.mem_cons_of_mem _ member))
        (fun invocation member => invocations invocation (List.mem_cons_of_mem _ member)) later
      exact Oracle.eval_append now rest

/-- An application once everything in it is reduced. -/
structure ReducedApply (oracle : Oracle) (lookup : String → Option Compound)
    (exact : Prop) (depth : Nat) (before after : Apply) : Prop where
  channel : after.channel = before.channel
  rest : after.rest = before.rest
  task : Resumed oracle lookup exact depth before.task after.task
  bindings : ResumedBindings oracle lookup exact depth before.bindings after.bindings

/-- Everything that a reduced application is made of was left by a reduction. -/
theorem ReducedApply.exists_of_mem {term : Term}
    (reduced : ReducedApply oracle lookup exact depth before after)
    (member : term ∈ after.task ∨ BoundIn after.bindings term) :
    ∃ compound residual, Resumed oracle lookup exact depth compound residual ∧
      term ∈ residual := by
  rcases member with inTask | bound
  · exact ⟨_, _, reduced.task, inTask⟩
  · exact reduced.bindings.exists_of_boundIn bound

theorem ReducedApply.uncrowded
    (reduced : ReducedApply oracle lookup exact depth before after)
    (plain : before.toTerm.IsPlain lookup) : after.Uncrowded :=
  reduced.task.separate plain.2.2

theorem ReducedApply.same {value : Compound}
    (reduced : ReducedApply oracle lookup exact depth before after)
    (found : oracle.eval lookup (depth + 1) [before.toTerm] = some value) :
    oracle.eval lookup (depth + 1) [after.toTerm] = some value := by
  rw [Oracle.eval_singleton] at found ⊢
  simp only [Apply.toTerm, Oracle.evalTerm] at found ⊢
  obtain ⟨task, evaluated, found⟩ := Option.bind_eq_some_iff.mp found
  obtain ⟨bindings, mapped, found⟩ := Option.bind_eq_some_iff.mp found
  rw [reduced.task.same evaluated, reduced.bindings.mapAll_eval mapped,
    reduced.channel, reduced.rest]
  exact found

theorem ReducedApply.total (reduced : ReducedApply oracle lookup exact depth before after)
    (lenient : oracle.fallback ≠ none) :
    ∃ value, oracle.eval lookup (depth + 1) [before.toTerm] = some value := by
  obtain ⟨task, evaluated⟩ := reduced.task.total lenient
  obtain ⟨bindings, mapped⟩ := reduced.bindings.total lenient
  rw [Oracle.eval_singleton]
  simp only [Apply.toTerm, Oracle.evalTerm, evaluated, mapped, Option.bind_some]
  exact Oracle.evalApply_total lenient

/-- An application that is made of what a reduction left, and has a plain task, is plain. -/
theorem ReducedApply.plain_of_stems {kept : Apply}
    (reduced : ReducedApply oracle lookup exact depth before after)
    (tasks : ∀ term ∈ kept.task, term ∈ after.task)
    (bound : ∀ term, BoundIn kept.bindings term → BoundIn after.bindings term)
    (uncrowded : kept.Uncrowded) : kept.toTerm.IsPlain lookup := by
  refine ⟨Term.areAllPlain_iff.mpr
    fun term member => reduced.task.plain term (tasks term member),
    Term.areBindingsPlain_iff.mpr fun term member => ?_, fun alternatives resolved => ?_⟩
  · obtain ⟨compound, residual, resumed, inside⟩ :=
      reduced.exists_of_mem (.inr (bound term member))
    exact resumed.plain term inside
  · rw [resolved.eq_of_unbound fun name member => reduced.task.unbound name (tasks _ member)]
    exact uncrowded

theorem Oracle.Evaluates.of_stems {kept : Apply}
    (evaluates : Oracle.Evaluates oracle lookup depth after)
    (tasks : ∀ term ∈ kept.task, term ∈ after.task)
    (bound : ∀ term, BoundIn kept.bindings term → BoundIn after.bindings term) :
    Oracle.Evaluates oracle lookup depth kept :=
  ⟨evaluates.positive, fun term member => evaluates.task term (tasks term member),
    fun term member => evaluates.bindings term (bound term member)⟩

/-- An application of settled terms that is left as it is has itself for its value. -/
theorem ReducedApply.stable_of_stems {kept : Apply}
    (reduced : ReducedApply oracle lookup exact depth before after) (positive : 0 < depth)
    (tasks : ∀ term ∈ kept.task, term ∈ after.task)
    (bound : ∀ term, BoundIn kept.bindings term → BoundIn after.bindings term)
    (settled : kept.toTerm.IsSettled)
    (left : oracle.evalApply kept = some [kept.toTerm]) :
    oracle.eval lookup (depth + 1) [kept.toTerm] = some [kept.toTerm] := by
  obtain ⟨taskSettled, bindingsSettled⟩ := Apply.isSettled_iff.mp settled
  have each : ∀ term, (term ∈ kept.task ∨ BoundIn kept.bindings term) →
      oracle.eval lookup depth [term] = some [term] := by
    rintro term (inTask | inBindings)
    · exact reduced.task.stable term (tasks term inTask) (taskSettled term inTask)
    · obtain ⟨compound, residual, resumed, inside⟩ :=
        reduced.exists_of_mem (.inr (bound term inBindings))
      exact resumed.stable term inside (bindingsSettled term inBindings)
  have evaluates : Oracle.Evaluates oracle lookup depth kept :=
    ⟨positive, fun term member => ⟨_, each term (.inl member)⟩,
      fun term member => ⟨_, each term (.inr member)⟩⟩
  have unchanged : ∀ {compound : Compound},
      (∀ term ∈ compound, oracle.eval lookup depth [term] = some [term]) →
      compound.flatMap (oracle.value lookup depth) = compound := by
    intro compound all
    induction compound with
    | nil => rfl
    | cons term rest ih =>
        rw [List.forall_mem_cons] at all
        rw [List.flatMap_cons, ih all.2, Oracle.value, all.1]
        rfl
  have sameBindings : OrderedMap.mapValues (List.flatMap (oracle.value lookup depth))
      kept.bindings = kept.bindings :=
    OrderedMap.mapValues_eq_self fun binding member =>
      unchanged fun term inside => each term (.inr ⟨binding, member, inside⟩)
  have sameApply : kept.advance (oracle.value lookup depth) = kept := by
    rw [Apply.advance, sameBindings, unchanged fun term inside => each term (.inl inside)]
  refine Oracle.eval_apply_eq_some_iff.mpr ⟨evaluates, ?_⟩
  rw [sameApply]
  exact left

/-- What can stand in what a pass makes of parts. -/
theorem PartBecomes.cases_of_mem {parts : List Part} {term : Term}
    (joined : PassM.Joined (PartBecomes oracle exact) parts result)
    (literal : oracle.Literal) (member : term ∈ result) :
    (∃ kept, .keep kept ∈ parts ∧ term = kept.toTerm) ∨
      (∃ invocation output, .invoke invocation ∈ parts ∧
        invocation.lambda.prototype.output? invocation.channel = some output ∧
        invocation.toApply.areArgumentsNormal = false ∧ term = invocation.toApply.toTerm) ∨
      (∃ placeholder, term = .ticket placeholder) ∨ ∃ text, term = .str text := by
  obtain ⟨part, among, piece, becomes, inside⟩ := joined.exists_of_mem member
  cases becomes with
  | keep => exact .inl ⟨_, among, List.mem_singleton.mp inside⟩
  | waits offered waits =>
      exact .inr (.inl ⟨_, _, among, offered, waits, List.mem_singleton.mp inside⟩)
  | asked _ _ _ _ issued _ =>
      rcases issued with rfl | known
      · exact .inr (.inr (.inl ⟨_, List.mem_singleton.mp inside⟩))
      · exact .inr (.inr (.inr (literal known term inside)))

/-- What is left of an application after everything in it was reduced and its
parts were worked off. -/
theorem Resumed.apply (literal : oracle.Literal) (plain : before.toTerm.IsPlain lookup)
    (reduced : ReducedApply oracle lookup exact depth before after)
    (parts : PassM.Joined (PartBecomes oracle exact) after.expand result) :
    Resumed oracle lookup exact (depth + 1) [before.toTerm] result := by
  have positive := reduced.task.positive
  have uncrowded := reduced.uncrowded plain
  have stems : ∀ part ∈ after.expand, part.StemsFrom after :=
    fun part => Apply.stems_of_mem_expand
  have invoked : ∀ invocation : Invocation, .invoke invocation ∈ after.expand →
      ∀ term ∈ invocation.toApply.task, term ∈ after.task := by
    intro invocation member term inside
    rw [List.mem_singleton.mp inside]
    exact (stems _ member).1
  have terms :=
    fun term (member : term ∈ result) => PartBecomes.cases_of_mem parts literal member
  refine
    { positive := depth.succ_pos
      value := fun told => ?_
      same := fun {value} found => ?_
      total := reduced.total
      plain := fun term member => ?_
      unbound := fun name member => ?_
      resolved := ⟨[before.toTerm], .other (by simp [Apply.toTerm]) .nil, ?_, fun all => ?_⟩
      stable := fun term member settled => ?_ }
  · rw [Oracle.eval_singleton]
    simp only [Apply.toTerm, Oracle.evalTerm, reduced.task.value told,
      reduced.bindings.value told, Option.bind_some, ← reduced.channel, ← reduced.rest]
    exact PartBecomes.value_joined parts told
  · obtain ⟨evaluates, expanded⟩ := Oracle.eval_apply_eq_some_iff.mp (reduced.same found)
    rw [Oracle.evalApply_advance (Oracle.keepsValues positive) uncrowded] at expanded
    refine PartBecomes.resumes_joined parts literal positive (fun kept member => ?_)
      (fun invocation member => ?_) expanded
    · exact evaluates.of_stems (stems _ member).1 (stems _ member).2
    · exact ⟨Apply.stable_of_mem_expand uncrowded member,
        evaluates.of_stems (invoked _ member) (stems _ member).2⟩
  · obtain ⟨kept, among, rfl⟩ | ⟨invocation, _, among, _, _, rfl⟩ |
        ⟨placeholder, rfl⟩ | ⟨text, rfl⟩ :=
      terms term member
    · exact reduced.plain_of_stems (stems _ among).1 (stems _ among).2
        (Apply.stable_of_mem_expand uncrowded among).2
    · exact reduced.plain_of_stems (invoked _ among) (stems _ among).2
        (Apply.uncrowded_of_single rfl)
    · trivial
    · trivial
  · obtain ⟨_, _, same⟩ | ⟨_, _, _, _, _, same⟩ | ⟨_, same⟩ | ⟨_, same⟩ :=
        terms _ member <;> simp [Apply.toTerm] at same
  · have noLambda : ∀ term ∈ result, Term.lambda? term = none := by
      intro term member
      obtain ⟨_, _, rfl⟩ | ⟨_, _, _, _, _, rfl⟩ | ⟨_, rfl⟩ | ⟨_, rfl⟩ :=
          terms term member <;> rfl
    rw [List.filterMap_eq_nil_iff.mpr noLambda]
    rfl
  · obtain ⟨lambda, same⟩ := all before.toTerm List.mem_cons_self
    simp [Apply.toTerm] at same
  · obtain ⟨kept, among, rfl⟩ | ⟨invocation, output, among, offered, waits, rfl⟩ |
        ⟨placeholder, rfl⟩ | ⟨text, rfl⟩ :=
      terms term member
    · refine reduced.stable_of_stems positive (stems _ among).1 (stems _ among).2 settled ?_
      rw [Oracle.evalApply, (Apply.stable_of_mem_expand uncrowded among).1]
      rfl
    · refine reduced.stable_of_stems positive (invoked _ among) (stems _ among).2 settled ?_
      rw [Oracle.evalApply,
        Apply.expand_toApply (Apply.stable_of_mem_expand uncrowded among)]
      simp [joinAll, Oracle.evalPart, Oracle.evalInvocation, offered, waits]
    · simp [Term.IsSettled, Term.holdsPlaceholder] at settled
    · exact Oracle.eval_singleton

end Applications

end TicketFlow
