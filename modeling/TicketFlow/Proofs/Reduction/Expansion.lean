import TicketFlow.Proofs.Reduction.Capture
import TicketFlow.Proofs.Reduction.Combination
import TicketFlow.Reduction.Expansion

namespace TicketFlow

/-! What becomes of the parts of an application when it is evaluated further.

An application may be expanded before or after what is not reduced in it has
been evaluated.  A part that is kept is expanded when it is met again, a part
that is invoked is expanded to itself, and a part that is rejected would have
been rejected later: the parts are the same in the end, and in the same order.
-/

variable {further : Term → Compound} {apply : Apply} {lambda : Lambda}
  {invocation : Invocation}

/-- The application of one of its tasks. -/
def Apply.only (apply : Apply) (task : Term) : Apply :=
  { apply with task := [task] }

theorem Apply.task_only (apply : Apply) {task : Term} :
    (apply.only task).task = [task] := rfl

/-- No correlated task stands next to another one. -/
def Apply.Uncrowded (apply : Apply) : Prop :=
  ∀ lambda, .lambda lambda ∈ apply.task → lambda.prototype.correlated = true →
    apply.task = [.lambda lambda]

section Capture

theorem Prototype.excess_mapValues {prototype : Prototype}
    {bindings : Bindings} (keeps : KeepsValues further)
    (normal : ((prototype.excess bindings).all fun binding => Compound.isNormal binding.2) =
      true) :
    prototype.excess (OrderedMap.mapValues (List.flatMap further) bindings) =
      prototype.excess bindings := by
  have pulled : prototype.excess (OrderedMap.mapValues (List.flatMap further) bindings) =
      OrderedMap.mapValues (List.flatMap further) (prototype.excess bindings) :=
    (OrderedMap.mapValues_filter fun name => !prototype.declares name).symm
  rw [pulled]
  exact OrderedMap.mapValues_eq_self
    fun binding member => keeps.flatMap (List.all_eq_true.mp normal binding member)

theorem Apply.captureRest?_eq_some_iff {captured : Apply} :
    apply.captureRest? = some captured ↔
      ∃ lambda, apply.task = [.lambda lambda] ∧
        ((lambda.prototype.rest = none ∧ captured = { apply with rest := false }) ∨
          ∃ rest, lambda.prototype.rest = some rest ∧
            ((lambda.prototype.excess apply.bindings).all fun binding =>
              Compound.isNormal binding.2) = true ∧
            captured = apply.capture lambda.prototype rest) := by
  unfold captureRest?
  split
  next lambda single =>
    simp only [single, List.cons.injEq, Term.lambda.injEq, and_true, exists_eq_left']
    cases takes : lambda.prototype.rest with
    | none => simp [eq_comm (b := captured)]
    | some rest =>
        simp only [reduceCtorEq, false_and, Option.some.injEq, exists_eq_left', false_or]
        split
        next normal => simp [normal, capture, eq_comm (b := captured), single]
        next unknown => simp [unknown]
  next other =>
    simp only [reduceCtorEq, false_iff]
    rintro ⟨lambda, single, _⟩
    exact other lambda single

theorem Apply.capture_advance {prototype : Prototype}
    {rest : String} (keeps : KeepsValues further)
    (normal : ((prototype.excess apply.bindings).all
      fun binding => Compound.isNormal binding.2) = true) :
    (apply.advance further).capture prototype rest =
      (apply.capture prototype rest).advance further := by
  have excess := Prototype.excess_mapValues keeps normal
  have values : (prototype.excess apply.bindings).values.flatten.flatMap further =
      (prototype.excess apply.bindings).values.flatten := by
    refine keeps.flatMap (List.all_eq_true.mpr fun term member => ?_)
    obtain ⟨compound, among, inside⟩ := List.mem_flatten.mp member
    obtain ⟨binding, bound, rfl⟩ := List.mem_map.mp among
    exact List.all_eq_true.mp (List.all_eq_true.mp normal binding bound) term inside
  have before : ((apply.advance further).bindings.get? rest).getD [] =
      ((apply.bindings.get? rest).getD []).flatMap further := by
    rw [get?_advance]
    cases apply.bindings.get? rest <;> rfl
  have declared :
      prototype.declared (OrderedMap.mapValues (List.flatMap further) apply.bindings) =
        OrderedMap.mapValues (List.flatMap further) (prototype.declared apply.bindings) :=
    (OrderedMap.mapValues_filter prototype.declares).symm
  unfold capture
  rw [before]
  simp only [advance, excess, declared, OrderedMap.mapValues_insert,
    OrderedMap.mapValues_erase, List.flatMap_append, values]

/-- Excess arguments are captured as values, so what else there is may be
evaluated before or after. -/
theorem Apply.captureRest?_advance {captured : Apply} (keeps : KeepsValues further)
    (complete : apply.captureRest? = some captured) :
    (apply.advance further).captureRest? = some (captured.advance further) := by
  obtain ⟨lambda, single, taken⟩ := captureRest?_eq_some_iff.mp complete
  have value : further (.lambda lambda) = [.lambda lambda] := keeps rfl
  have sameTask : (apply.advance further).task = [.lambda lambda] := by
    simp [advance, single, value]
  refine captureRest?_eq_some_iff.mpr ⟨lambda, sameTask, ?_⟩
  rcases taken with ⟨noRest, rfl⟩ | ⟨rest, takesRest, normal, rfl⟩
  · exact .inl ⟨noRest, rfl⟩
  · refine .inr ⟨rest, takesRest, ?_, (capture_advance keeps normal).symm⟩
    have excess := Prototype.excess_mapValues keeps normal
    rw [advance, excess]
    exact normal

theorem Apply.task_of_captureRest? {captured : Apply}
    (complete : apply.captureRest? = some captured) :
    captured.task = apply.task ∧ captured.channel = apply.channel ∧
      captured.rest = false := by
  obtain ⟨lambda, _, ⟨_, rfl⟩ | ⟨rest, _, _, rfl⟩⟩ :=
      captureRest?_eq_some_iff.mp complete <;> exact ⟨rfl, rfl, rfl⟩

/-- An application waits for its excess arguments, or has captured them for good. -/
theorem Apply.captureRest_cases (apply : Apply) :
    (apply.captureRest = apply ∧ apply.rest = true) ∨
      (apply.captureRest.rest = false ∧ apply.captureRest.task = apply.task ∧
        apply.captureRest.channel = apply.channel ∧
        ∀ {further}, KeepsValues further →
          (apply.advance further).captureRest = apply.captureRest.advance further) := by
  simp only [captureRest_eq]
  by_cases waits : apply.rest = true
  · cases complete : apply.captureRest? with
    | none => exact .inl ⟨by simp [waits], waits⟩
    | some captured =>
        obtain ⟨task, channel, rest⟩ := task_of_captureRest? complete
        have same : (if apply.rest then (some captured).getD apply else apply) =
            captured := if_pos waits
        rw [same]
        refine .inr ⟨rest, task, channel, ?_⟩
        intro further keeps
        have later : (apply.advance further).rest = true := waits
        simp [later, captureRest?_advance keeps complete]
  · refine .inr ⟨by simp [waits], by simp [waits], by simp [waits], ?_⟩
    intro further keeps
    have later : ¬(apply.advance further).rest = true := waits
    simp [waits, later]

end Capture

section Stems

variable {kept : Apply} {term : Term}

theorem Apply.boundIn_capture {prototype : Prototype} {rest : String}
    (bound : BoundIn (apply.capture prototype rest).bindings term) :
    BoundIn apply.bindings term := by
  obtain ⟨binding, member, inside⟩ := bound
  rcases OrderedMap.eq_or_mem_of_mem_insert member with rfl | kept
  · rcases List.mem_append.mp inside with before | captured
    · cases found : apply.bindings.get? rest with
      | none => simp [found] at before
      | some value =>
          exact ⟨_, OrderedMap.mem_of_get? found, by simpa [found] using before⟩
    · obtain ⟨compound, among, here⟩ := List.mem_flatten.mp captured
      obtain ⟨excess, present, rfl⟩ := List.mem_map.mp among
      exact ⟨excess, List.mem_of_mem_filter present, here⟩
  · exact ⟨binding, List.mem_of_mem_filter (OrderedMap.mem_of_mem_erase kept), inside⟩

theorem Apply.boundIn_captureRest (bound : BoundIn apply.captureRest.bindings term) :
    BoundIn apply.bindings term := by
  rw [captureRest_eq] at bound
  split at bound
  · cases complete : apply.captureRest? with
    | none => simpa [complete] using bound
    | some captured =>
        rw [complete, Option.getD_some] at bound
        obtain ⟨lambda, _, ⟨_, rfl⟩ | ⟨rest, _, _, rfl⟩⟩ :=
          captureRest?_eq_some_iff.mp complete
        · exact bound
        · exact boundIn_capture bound
  · exact bound

theorem Apply.task_captureRest : apply.captureRest.task = apply.task := by
  rcases apply.captureRest_cases with ⟨same, _⟩ | ⟨_, same, _⟩
  · rw [same]
  · exact same

/-- A part is made of nothing but what stands in the application. -/
def Part.StemsFrom (apply : Apply) : Part → Prop
  | .keep kept => (∀ term ∈ kept.task, term ∈ apply.task) ∧
      ∀ term, BoundIn kept.bindings term → BoundIn apply.bindings term
  | .invoke invocation => .lambda invocation.lambda ∈ apply.task ∧
      ∀ term, BoundIn invocation.bindings term → BoundIn apply.bindings term
  | .reject _ => True

theorem Apply.stems_of_mem_combine {part : Part} (member : part ∈ apply.combine) :
    part.StemsFrom apply := by
  unfold combine at member
  split at member
  · rw [List.mem_singleton.mp member]
    exact ⟨fun _ => id, fun _ => id⟩
  · split at member
    next combination combined =>
      obtain ⟨invocation, among, rfl⟩ := List.mem_map.mp member
      obtain ⟨task, _, bound⟩ := Combination.stems_of_mem_invocations combined among
      exact ⟨task, bound⟩
    · rw [List.mem_singleton.mp member]
      exact ⟨fun _ => id, fun _ => id⟩
    · rw [List.mem_singleton.mp member]
      trivial

theorem Apply.stems_of_mem_expandTask {part : Part} {task : Term}
    (among : task ∈ apply.task) (member : part ∈ apply.expandTask task) :
    part.StemsFrom apply := by
  have single : (apply.only task).captureRest.task = [task] := task_captureRest
  have bound : ∀ term, BoundIn (apply.only task).captureRest.bindings term →
      BoundIn apply.bindings term := fun term bound => by
    have before : BoundIn (apply.only task).bindings term := boundIn_captureRest bound
    exact before
  have tasks : ∀ term ∈ (apply.only task).captureRest.task, term ∈ apply.task := by
    intro term inside
    rw [single, List.mem_singleton] at inside
    exact inside ▸ among
  unfold expandTask at member
  split at member
  · have stems := stems_of_mem_combine member
    cases part with
    | keep kept =>
        exact ⟨fun term inside => tasks term (stems.1 term inside),
          fun term inside => bound term (stems.2 term inside)⟩
    | invoke invocation =>
        exact ⟨tasks _ stems.1, fun term inside => bound term (stems.2 term inside)⟩
    | reject error => trivial
  · rw [List.mem_singleton.mp member]
    exact ⟨tasks, bound⟩

theorem Apply.stems_of_mem_expand {part : Part} (member : part ∈ apply.expand) :
    part.StemsFrom apply := by
  have whole : part = .keep apply → part.StemsFrom apply := by
    rintro rfl
    exact ⟨fun _ => id, fun _ => id⟩
  unfold expand at member
  split at member
  · simp at member
  next task single => exact stems_of_mem_expandTask (by simp [single]) member
  · split at member
    · exact stems_of_mem_combine member
    · split at member
      · obtain ⟨task, among, inside⟩ := List.mem_flatMap.mp member
        exact stems_of_mem_expandTask among inside
      · exact whole (List.mem_singleton.mp member)
  · exact whole (List.mem_singleton.mp member)

end Stems

section Parts

/-- What a part comes to when it is evaluated further and met again. -/
def Part.later (further : Term → Compound) : Part → List Part
  | .keep kept => (kept.advance further).expand
  | .invoke invocation => [.invoke (invocation.advance further)]
  | .reject error => [.reject error]

namespace Apply

/-- An application that waits for no capture is a combination, an
application left, or an error. -/
theorem combine_cases (whole : apply.rest = false) :
    (∃ combination, Combination.ofApply apply = .ok combination ∧
        apply.combine = combination.invocations.map .invoke) ∨
      apply.combine = [.keep apply] ∨
      ∃ error, Combination.ofApply apply = .error (.rejected error) ∧
        apply.combine = [.reject error] := by
  simp only [combine, whole, Bool.false_eq_true, if_false]
  cases combined : Combination.ofApply apply with
  | ok combination => exact .inl ⟨combination, rfl, rfl⟩
  | error obstacle =>
      cases obstacle with
      | notDerivable term => exact .inr (.inl rfl)
      | rejected error => exact .inr (.inr ⟨error, rfl, rfl⟩)

theorem captureRest_of_whole (whole : apply.rest = false) :
    apply.captureRest = apply := by
  simp [captureRest, whole]

theorem expand_lambda (single : apply.task = [.lambda lambda]) :
    apply.expand = apply.captureRest.combine := by
  have same : { apply with task := [.lambda lambda] } = apply := by rw [← single]
  simp only [expand, single, expandTask, same]

theorem expand_other {task : Term} (single : apply.task = [task])
    (other : ∀ lambda, task ≠ .lambda lambda) : apply.expand = [.keep apply] := by
  have same : { apply with task := [task] } = apply := by rw [← single]
  have uncaptured : apply.captureRest = apply := by
    rw [captureRest_eq]
    split
    · cases complete : apply.captureRest? with
      | none => rfl
      | some captured =>
          obtain ⟨lambda, found, _⟩ := captureRest?_eq_some_iff.mp complete
          rw [single, List.cons.injEq] at found
          exact absurd found.1 (other lambda)
    · rfl
  unfold expand
  rw [single]
  cases task with
  | lambda value => exact absurd rfl (other value)
  | _ => simp only [expandTask, same, uncaptured]

/-- The ways in which an application is expanded.  Several known tasks are expanded one by
one, whatever they are applied to. -/
theorem expand_cases (uncrowded : apply.Uncrowded) :
    (apply.task = [] ∧ apply.expand = []) ∨
      (∃ lambda, apply.task = [.lambda lambda]) ∨
      (Compound.isNormal apply.task = true ∧ ∀ other : Apply, other.task = apply.task →
        other.expand = apply.task.flatMap fun task => (other.only task).expand) ∨
      apply.expand = [.keep apply] := by
  rcases found : apply.task with _ | ⟨first, _ | ⟨second, others⟩⟩
  · exact .inl ⟨rfl, by simp [expand, found]⟩
  · by_cases known : ∃ lambda, first = .lambda lambda
    · obtain ⟨lambda, rfl⟩ := known
      exact .inr (.inl ⟨lambda, rfl⟩)
    · exact .inr (.inr (.inr (expand_other found fun lambda same => known ⟨lambda, same⟩)))
  · cases first with
    | lambda lambda =>
        have apart : lambda.prototype.correlated = false := by
          cases correlated : lambda.prototype.correlated with
          | false => rfl
          | true => simpa [found] using uncrowded lambda (by simp [found]) correlated
        by_cases normal : Compound.isNormal apply.task = true
        · refine .inr (.inr (.inl ⟨found ▸ normal, fun other same => ?_⟩))
          simp only [expand, same, apart, Bool.false_eq_true, if_false,
            found ▸ normal, if_true]
          rfl
        · refine .inr (.inr (.inr ?_))
          simp only [expand, found, apart, Bool.false_eq_true, if_false, found ▸ normal]
    | _ => exact .inr (.inr (.inr (by simp [expand, found])))

theorem expand_toApply (single : invocation.Single) :
    invocation.toApply.expand = [.invoke invocation] := by
  obtain ⟨combination, combined, invocations⟩ := Combination.invocations_toApply single
  have whole : invocation.toApply.rest = false := rfl
  have task : invocation.toApply.task = [.lambda invocation.lambda] := rfl
  rw [expand_lambda task, captureRest_of_whole whole]
  simp [combine, whole, combined, invocations]

end Apply

variable {γ : Type} {read : Part → γ}

/-- The parts of an application of one task are the same whether the rest of it is
evaluated before or after it is expanded. -/
theorem Apply.expand_advance_lambda (keeps : KeepsValues further)
    (blind : ∀ first second, read (.reject first) = read (.reject second))
    (single : apply.task = [.lambda lambda]) :
    (apply.advance further).expand.map read =
      (apply.expand.flatMap (Part.later further)).map read := by
  have value : further (.lambda lambda) = [.lambda lambda] := keeps rfl
  have laterSingle : (apply.advance further).task = [.lambda lambda] := by
    simp [advance, single, value]
  rw [expand_lambda single, expand_lambda laterSingle]
  rcases apply.captureRest_cases with ⟨same, waits⟩ | ⟨whole, task, _, captures⟩
  · rw [same]
    simp [combine, waits, Part.later, expand_lambda laterSingle]
  · rw [captures keeps]
    generalize apply.captureRest = captured at whole task captures ⊢
    rw [single] at task
    have laterWhole : (captured.advance further).rest = false := whole
    rcases combine_cases whole with
        ⟨combination, combined, parts⟩ | parts | ⟨error, rejected, parts⟩
    · have later := Combination.ofApply_advance keeps task combined
      rw [parts]
      have each : combination.invocations.flatMap
          (fun invocation => Part.later further (.invoke invocation)) =
          combination.invocations.map fun invocation => .invoke (invocation.advance further) :=
        List.map_eq_flatMap.symm
      simp only [combine, laterWhole, Bool.false_eq_true, if_false, later,
        Combination.invocations_advance keeps task combined, List.flatMap_map,
        each, List.map_map]
      rfl
    · rw [parts]
      have capturedLater : (captured.advance further).task = [.lambda lambda] := by
        simp [advance, task, value]
      simp [Part.later, expand_lambda capturedLater, captureRest_of_whole laterWhole]
    · obtain ⟨later, found⟩ := Combination.ofApply_advance_rejected keeps task rejected
      rw [parts]
      simp [combine, laterWhole, found, Part.later, blind later error]

/-- An application has the same parts whether what is not reduced in it is evaluated
before or after it is expanded. -/
theorem Apply.expand_advance (keeps : KeepsValues further)
    (blind : ∀ first second, read (.reject first) = read (.reject second))
    (uncrowded : apply.Uncrowded) :
    (apply.advance further).expand.map read =
      (apply.expand.flatMap (Part.later further)).map read := by
  rcases expand_cases uncrowded with
      ⟨empty, parts⟩ | ⟨lambda, single⟩ | ⟨normal, parts⟩ | parts
  · have laterEmpty : (apply.advance further).task = [] := by simp [advance, empty]
    have laterParts : (apply.advance further).expand = [] := by
      simp only [expand, laterEmpty]
    rw [parts, laterParts]
    rfl
  · exact expand_advance_lambda keeps blind single
  · have sameTask : (apply.advance further).task = apply.task := keeps.flatMap normal
    have each : ∀ task ∈ apply.task,
        ((apply.advance further).only task).expand.map read =
          ((apply.only task).expand.flatMap (Part.later further)).map read := by
      intro task member
      have value : further task = [task] := keeps (List.all_eq_true.mp normal task member)
      have same : (apply.advance further).only task = (apply.only task).advance further := by
        simp [advance, only, value]
      rw [same]
      by_cases known : ∃ lambda, task = .lambda lambda
      · obtain ⟨lambda, rfl⟩ := known
        exact expand_advance_lambda keeps blind rfl
      · rw [expand_other apply.task_only fun lambda same => known ⟨lambda, same⟩]
        simp [Part.later]
    rw [parts _ sameTask, parts apply rfl, List.flatMap_assoc, List.map_flatMap,
      List.map_flatMap]
    exact List.flatMap_congr each
  · simp [parts, Part.later]

/-- Met again, the part comes to itself. -/
def Part.Stable : Part → Prop
  | .keep kept => kept.expand = [.keep kept] ∧ kept.Uncrowded
  | .invoke invocation => invocation.Single
  | .reject _ => True

theorem Apply.uncrowded_of_single {task : Term} (single : apply.task = [task]) :
    apply.Uncrowded := by
  intro lambda among _
  rw [single, List.mem_singleton] at among
  rw [single, among]

theorem Apply.stable_of_lambda {part : Part} (single : apply.task = [.lambda lambda])
    (member : part ∈ apply.expand) : part.Stable := by
  have parts := expand_lambda single
  rw [parts] at member
  rcases apply.captureRest_cases with ⟨same, waits⟩ | ⟨whole, task, _⟩
  · have left : apply.captureRest.combine = [.keep apply] := by
      simp [same, combine, waits]
    rw [left, List.mem_singleton] at member
    rw [member]
    exact ⟨parts.trans left, uncrowded_of_single single⟩
  · have again : apply.captureRest.expand = apply.captureRest.combine := by
      rw [expand_lambda (task.trans single), captureRest_of_whole whole]
    rcases combine_cases whole with ⟨combination, combined, left⟩ | left | ⟨error, _, left⟩
    · rw [left] at member
      obtain ⟨invocation, inside, rfl⟩ := List.mem_map.mp member
      obtain ⟨index, within, found⟩ := List.mem_filterMap.mp inside
      exact Combination.single_of_invocation? (task.trans single) combined
        (List.mem_range.mp within) found
    · rw [left, List.mem_singleton] at member
      rw [member]
      exact ⟨again.trans left, uncrowded_of_single (task.trans single)⟩
    · rw [left, List.mem_singleton] at member
      rw [member]
      trivial

theorem Apply.stable_of_mem_expand {part : Part} (uncrowded : apply.Uncrowded)
    (member : part ∈ apply.expand) : part.Stable := by
  rcases expand_cases uncrowded with ⟨_, parts⟩ | ⟨lambda, single⟩ | ⟨normal, parts⟩ | parts
  · simp [parts] at member
  · exact stable_of_lambda single member
  · rw [parts apply rfl] at member
    obtain ⟨task, _, inside⟩ := List.mem_flatMap.mp member
    by_cases known : ∃ lambda, task = .lambda lambda
    · obtain ⟨lambda, rfl⟩ := known
      exact stable_of_lambda rfl inside
    · have left := expand_other apply.task_only fun lambda same => known ⟨lambda, same⟩
      rw [left, List.mem_singleton] at inside
      rw [inside]
      exact ⟨left, uncrowded_of_single rfl⟩
  · rw [parts, List.mem_singleton] at member
    rw [member]
    exact ⟨parts, uncrowded⟩

end Parts

end TicketFlow
