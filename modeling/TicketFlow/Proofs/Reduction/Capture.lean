import TicketFlow.Proofs.Data.OrderedMap
import TicketFlow.Reduction.RestCapture

namespace TicketFlow

/-! Excess arguments are captured all at once or not at all.

A capture looks at every excess argument before it takes out the first, so one
that ends early has changed nothing.  One that is complete has taken out exactly
the excess arguments: the others stay as they were and where they were, and the
alternatives of the excess ones stand behind what the rest parameter was bound
to, in binding order.
-/

/-- The arguments that the prototype declares. -/
def Prototype.declared (prototype : Prototype) (bindings : Bindings) : Bindings :=
  bindings.filter fun binding => prototype.declares binding.1

theorem Prototype.mem_keys_excess {prototype : Prototype} {bindings : Bindings}
    {binding : String × Compound} (bound : binding ∈ bindings) :
    binding.1 ∈ (prototype.excess bindings).keys ↔
      prototype.declares binding.1 = false := by
  constructor
  · intro among
    obtain ⟨other, listed, same⟩ := List.mem_map.mp among
    simpa [same] using (List.mem_filter.mp listed).2
  · intro undeclared
    exact List.mem_map.mpr ⟨binding, List.mem_filter.mpr ⟨bound, by simp [undeclared]⟩, rfl⟩

theorem Prototype.declares_of_rest {prototype : Prototype} {rest : String}
    (takes : prototype.rest = some rest) : prototype.declares rest = true := by
  simp [declares, paramNames, takes]

/-- The count fails at the first alternative that is no value. -/
theorem Compound.numAtoms_eq_error_iff {compound : Compound} {term : Term} :
    numAtoms compound = .error term ↔
      (compound.find? fun term => !term.isNormal) = some term := by
  induction compound with
  | nil => simp [numAtoms]
  | cons first later ih =>
      cases normal : first.isNormal with
      | false => simp [numAtoms, normal]
      | true =>
          rw [numAtoms, if_pos normal, List.find?_cons_of_neg (by simp [normal]), ← ih]
          cases numAtoms later <;> simp [Except.map]

namespace Apply

/-- The application once the rest parameter has taken everything that the
prototype does not declare. -/
def capture (apply : Apply) (prototype : Prototype) (rest : String) : Apply :=
  { apply with
    bindings := ((prototype.declared apply.bindings).erase rest).insert rest
      ((apply.bindings.get? rest).getD [] ++ (prototype.excess apply.bindings).values.flatten)
    rest := false }

/-- The application with its excess arguments captured, if all that it takes is known. -/
def captureRest? (apply : Apply) : Option Apply :=
  match apply.task with
  | [.lambda lambda] =>
      match lambda.prototype.rest with
      | none => some { apply with rest := false }
      | some rest =>
          if (lambda.prototype.excess apply.bindings).all
            fun binding => Compound.isNormal binding.2 then
            some (apply.capture lambda.prototype rest)
          else none
  | _ => none

/-- The first alternative of an excess argument that is no value. -/
def firstOpen? (apply : Apply) (prototype : Prototype) : Option Term :=
  (prototype.excess apply.bindings).values.flatten.find? fun term => !term.isNormal

/-- The application after is the one before with every excess argument moved
to the rest parameter. -/
structure Captures (before after : Apply) (prototype : Prototype)
    (rest : String) : Prop where
  task : after.task = before.task
  channel : after.channel = before.channel
  flag : after.rest = false
  others :
    (after.bindings.filter fun binding => binding.1 != rest) =
      before.bindings.filter fun binding => prototype.declares binding.1 && binding.1 != rest
  captured : after.bindings.get? rest = some ((before.bindings.get? rest).getD [] ++
    (prototype.excess before.bindings).values.flatten)
  distinct : before.bindings.Distinct → after.bindings.Distinct
  conserved :
    before.bindings.Distinct →
    after.bindings.values.flatten.Perm before.bindings.values.flatten

variable {apply : Apply} {lambda : Lambda} {prototype : Prototype}
  {entries bindings : Bindings} {captured : Compound} {name rest : String}

section Loops

theorem checkValues_eq : checkValues entries =
    match entries.values.flatten.find? fun term => !term.isNormal with
    | some term => .error term.text
    | none => .ok () := by
  induction entries with
  | nil => rfl
  | cons entry later ih =>
      obtain ⟨name, value⟩ := entry
      rw [checkValues, show OrderedMap.values ((name, value) :: later) =
        value :: OrderedMap.values later from rfl, List.flatten_cons, List.find?_append]
      cases counted : Compound.numAtoms value with
      | error term => rw [Compound.numAtoms_eq_error_iff.mp counted, Option.some_or]
      | ok count =>
          have closed : (value.find? fun term => !term.isNormal) = none := by
            refine Option.eq_none_iff_forall_ne_some.mpr fun term open_ => ?_
            rw [Compound.numAtoms_eq_error_iff.mpr open_] at counted
            cases counted
          rw [closed, Option.none_or, ih]

theorem moveOut_eq : moveOut entries bindings captured =
    (bindings.filter fun binding => !entries.keys.contains binding.1,
      captured ++ entries.values.flatten) := by
  induction entries generalizing bindings captured with
  | nil =>
      have all : (bindings.filter fun _ => true) = bindings :=
        List.filter_eq_self.mpr fun _ _ => rfl
      simp [moveOut, OrderedMap.keys, OrderedMap.values, all]
  | cons entry later ih =>
      obtain ⟨name, value⟩ := entry
      rw [moveOut, ih, OrderedMap.erase_eq_filter, List.filter_filter]
      refine Prod.ext (List.filter_congr fun binding _ => ?_) (by simp [OrderedMap.values])
      by_cases same : binding.1 = name <;> simp [OrderedMap.keys, same]

/-- Taking out the excess arguments one by one leaves the declared ones. -/
theorem moveOut_excess :
    moveOut (prototype.excess bindings) (bindings.erase rest) captured =
      ((prototype.declared bindings).erase rest,
        captured ++ (prototype.excess bindings).values.flatten) := by
  rw [moveOut_eq, OrderedMap.erase_eq_filter, OrderedMap.erase_eq_filter,
    List.filter_filter, Prototype.declared, List.filter_filter]
  refine Prod.ext (List.filter_congr fun binding bound => ?_) rfl
  -- Names may repeat here, so what is taken out goes by name and not by place.
  have among := prototype.mem_keys_excess bound
  cases declared : prototype.declares binding.1 <;> simp_all

end Loops

section Outcomes

theorem firstOpen?_eq_none_iff : apply.firstOpen? prototype = none ↔
    ((prototype.excess apply.bindings).all fun binding => Compound.isNormal binding.2) =
      true := by
  simp only [firstOpen?, List.find?_eq_none, List.mem_flatten, OrderedMap.values,
    List.mem_map, List.all_eq_true, Compound.isNormal]
  simp only [Bool.not_eq_true', Bool.not_eq_false]
  constructor
  · exact fun all binding among term inside => all term ⟨_, ⟨binding, among, rfl⟩, inside⟩
  · rintro all term ⟨_, ⟨binding, among, rfl⟩, inside⟩
    exact all binding among term inside

theorem absorbRest_of_restless (single : apply.task = [.lambda lambda])
    (restless : lambda.prototype.rest = none) :
    apply.absorbRest = (.ok (), { apply with rest := false }) := by
  simp only [absorbRest, single, restless]

theorem absorbRest_of_rest (single : apply.task = [.lambda lambda])
    (takes : lambda.prototype.rest = some rest) : apply.absorbRest =
      match apply.firstOpen? lambda.prototype with
      | some term => (.error term.text, apply)
      | none => (.ok (), apply.capture lambda.prototype rest) := by
  simp only [absorbRest, single, takes, checkValues_eq, moveOut_excess]
  cases open_ : apply.firstOpen? lambda.prototype <;> rw [firstOpen?] at open_ <;>
    simp only [open_]
  rw [capture, single]

theorem absorbRest_of_task (several : ∀ lambda, apply.task ≠ [.lambda lambda]) :
    apply.absorbRest = (.error (Compound.text apply.task), apply) := by
  unfold absorbRest
  split
  next lambda single => exact absurd single (several lambda)
  next => rfl

theorem absorbRest_snd : apply.absorbRest.2 = apply.captureRest?.getD apply := by
  unfold captureRest?
  split
  next lambda single =>
    cases takes : lambda.prototype.rest with
    | none => rw [absorbRest_of_restless single takes]; rfl
    | some rest =>
        rw [absorbRest_of_rest single takes]
        cases open_ : apply.firstOpen? lambda.prototype with
        | none =>
            simp only [if_pos (firstOpen?_eq_none_iff.mp open_), Option.getD_some]
        | some term =>
            have unknown :=
              mt firstOpen?_eq_none_iff.mpr (Option.ne_none_iff_exists'.mpr ⟨term, open_⟩)
            simp only [if_neg unknown, Option.getD_none]
  next several => rw [absorbRest_of_task several]; rfl

theorem captureRest_eq :
    apply.captureRest = if apply.rest then apply.captureRest?.getD apply else apply := by
  rw [captureRest, absorbRest_snd]

end Outcomes

section Conservation

theorem bindings_capture :
    (apply.capture prototype rest).bindings = (apply.bindings.filter
      fun binding => prototype.declares binding.1 && binding.1 != rest) ++
      [(rest, (apply.bindings.get? rest).getD [] ++
        (prototype.excess apply.bindings).values.flatten)] := by
  have kept : (prototype.declared apply.bindings).erase rest =
      apply.bindings.filter
        fun binding => prototype.declares binding.1 && binding.1 != rest := by
    rw [OrderedMap.erase_eq_filter, Prototype.declared, List.filter_filter]
    exact List.filter_congr
      fun binding _ => by by_cases same : binding.1 = rest <;> simp [same]
  have fresh : rest ∉ ((prototype.declared apply.bindings).erase rest).keys := by
    rw [kept]
    simp [OrderedMap.keys]
  rw [capture, OrderedMap.insert_of_not_mem fresh, kept]

/-- No alternative is lost or doubled: those of the rest parameter and of the excess
arguments come together. -/
theorem perm_capture (takes : prototype.rest = some rest)
    (distinct : apply.bindings.Distinct) :
    (apply.capture prototype rest).bindings.values.flatten.Perm
      apply.bindings.values.flatten := by
  -- The bindings come in three parts: the excess arguments, the rest
  -- parameter, and the others.
  have split : (prototype.declared apply.bindings ++ prototype.excess apply.bindings).Perm
      apply.bindings :=
    List.filter_append_perm _ _
  have apart :=
    List.filter_append_perm (fun binding => binding.1 != rest)
      (prototype.declared apply.bindings)
  have own :
      ((prototype.declared apply.bindings).filter fun binding => !(binding.1 != rest)) =
        (apply.bindings.get? rest).toList.map fun value => (rest, value) := by
    simp only [bne, Bool.not_not]
    rw [Prototype.declared, OrderedMap.filter_key (distinct.filter _),
      OrderedMap.get?_filter, if_pos (prototype.declares_of_rest takes)]
  have kept : ((prototype.declared apply.bindings).filter fun binding => binding.1 != rest) =
      apply.bindings.filter
        fun binding => prototype.declares binding.1 && binding.1 != rest := by
    rw [Prototype.declared, List.filter_filter]
    exact List.filter_congr fun binding _ => Bool.and_comm _ _
  rw [own, kept] at apart
  have whole :=
    (((apart.append_right (prototype.excess apply.bindings)).trans split).map Prod.snd).flatten
  rw [bindings_capture]
  cases bound : apply.bindings.get? rest <;> simpa [OrderedMap.values, bound] using whole

theorem captures_capture (takes : prototype.rest = some rest) :
    apply.Captures (apply.capture prototype rest) prototype rest where
  task := rfl
  channel := rfl
  flag := rfl
  others := by
    rw [bindings_capture, List.filter_append, List.filter_filter,
      List.filter_cons_of_neg (by simp), List.filter_nil, List.append_nil]
    exact List.filter_congr
      fun binding _ => by by_cases same : binding.1 = rest <;> simp [same]
  captured := by rw [capture, OrderedMap.get?_insert_self]
  distinct := fun distinct => (distinct.filter _).erase.insert
  conserved := perm_capture takes

/-- A capture that fails leaves the application as it is; one that succeeds moves all
excess arguments to the rest parameter, if there is one, and nothing else.  It fails
exactly if the task is not one lambda, or an excess argument for its rest parameter has an
alternative that is no value. -/
theorem absorbRest_atomic (apply : Apply) :
    (∀ unknown, apply.absorbRest.1 = .error unknown → apply.absorbRest.2 = apply) ∧
    (apply.absorbRest.1 = .ok () → ∃ lambda, apply.task = [.lambda lambda] ∧
      (lambda.prototype.rest = none → apply.absorbRest.2 = { apply with rest := false }) ∧
      ∀ rest, lambda.prototype.rest = some rest →
      apply.Captures apply.absorbRest.2 lambda.prototype rest) ∧
    ∀ unknown, apply.absorbRest.1 = .error unknown ↔
      ((∀ lambda, apply.task ≠ [.lambda lambda]) ∧ Compound.text apply.task = unknown) ∨
        ∃ lambda rest term, apply.task = [.lambda lambda] ∧ lambda.prototype.rest = some rest ∧
        apply.firstOpen? lambda.prototype = some term ∧ term.text = unknown := by
  by_cases single : ∃ lambda, apply.task = [.lambda lambda]
  · obtain ⟨lambda, single⟩ := single
    cases takes : lambda.prototype.rest with
    | none =>
        rw [absorbRest_of_restless single takes]
        refine ⟨nofun, fun _ => ⟨lambda, single, fun _ => rfl, by simp [takes]⟩,
          fun unknown => ?_⟩
        simp [single, takes]
    | some rest =>
        rw [absorbRest_of_rest single takes]
        cases open_ : apply.firstOpen? lambda.prototype with
        | some term =>
            exact ⟨fun _ _ => rfl, nofun, fun unknown => by simp [single, takes, open_]⟩
        | none =>
            refine ⟨nofun, fun _ =>
              ⟨lambda, single, by simp [takes], fun other same => ?_⟩, fun unknown => ?_⟩
            · obtain rfl := Option.some.inj (takes.symm.trans same)
              exact captures_capture takes
            · simp [single, takes, open_]
  · have several : ∀ lambda, apply.task ≠ [.lambda lambda] := not_exists.mp single
    rw [absorbRest_of_task several]
    exact ⟨fun _ _ => rfl, nofun, fun unknown => by simp [several]⟩

/-- Two excess arguments, before and behind a declared one, go behind what the rest
parameter was bound to. -/
def scattered : Apply where
  task := [.lambda (.foreign ⟨"pack",
    { params := [.plain "a"], outputs := ["o"], rest := some "more" }, "bash", ""⟩)]
  bindings := [("more", .strs ["0"]), ("b", .strs ["1", "2"]), ("a", .strs ["x"]),
    ("c", .strs ["3"])]
  channel := 1
  rest := true

theorem absorbRest_atomic_scattered :
    ∃ lambda, scattered.task = [.lambda lambda] ∧
      scattered.Captures scattered.absorbRest.2 lambda.prototype "more" ∧
      scattered.absorbRest.2.bindings =
        [("a", .strs ["x"]), ("more", .strs ["0", "1", "2", "3"])] := by
  obtain ⟨lambda, single, _, captures⟩ := (absorbRest_atomic scattered).2.1 rfl
  obtain rfl := Term.lambda.inj (List.cons.inj single).1
  exact ⟨_, single, captures "more" rfl, rfl⟩

end Conservation

end Apply

end TicketFlow
