import Mathlib.Data.List.Forall2
import TicketFlow.Proofs.Reduction.Expansion
import TicketFlow.TicketSource

namespace TicketFlow

/-! Evaluation of terms without tickets being requested.

An oracle knows the placeholder of every invocation and some outputs.  Under an
oracle terms have values, which a pass of reduction comes closer to.  Only what
needs no block but the root is evaluated: strings, names, foreign lambdas,
tickets and applications.
-/

structure Oracle where
  /-- The placeholder of an invocation, unless it is refused. -/
  placeholder : Apply → Option Placeholder
  output? : TicketId → Nat → Option Compound
  /-- What stands for a part that is rejected; without it a rejection leaves no value. -/
  fallback : Option Compound

/-- The results of all elements, joined, if each has one. -/
def joinAll {β : Type} (f : β → Option Compound) : List β → Option Compound
  | [] => some []
  | value :: rest => (f value).bind fun head => (joinAll f rest).map (head ++ ·)

/-- The results of all entries, under their keys, if each has one. -/
def mapAll (f : Compound → Option Compound) : Bindings → Option Bindings
  | [] => some []
  | (name, value) :: rest =>
      (f value).bind fun head => (mapAll f rest).map ((name, head) :: ·)

section Lists

variable {β γ : Type} {f : β → Option Compound} {values : List β} {result : Compound}

theorem joinAll_eq_some_iff :
    joinAll f values = some result ↔
      (∀ value ∈ values, ∃ part, f value = some part) ∧
        result = values.flatMap fun value => (f value).getD [] := by
  induction values generalizing result with
  | nil => simp [joinAll, eq_comm]
  | cons value rest ih =>
      cases head : f value with
      | none => simp [joinAll, head]
      | some first =>
          cases tail : joinAll f rest with
          | none =>
              have never : ¬∀ value ∈ rest, ∃ part, f value = some part := by
                intro all
                simp [ih.mpr ⟨all, rfl⟩] at tail
              simp [joinAll, head, tail, never]
          | some last =>
              obtain ⟨all, rfl⟩ := ih.mp tail
              simp only [joinAll, head, tail, Option.bind_some, Option.map_some,
                Option.some.injEq, List.forall_mem_cons, exists_eq', true_and,
                List.flatMap_cons, Option.getD_some]
              exact ⟨fun same => ⟨all, same.symm⟩, fun both => both.2.symm⟩

theorem joinAll_append {more : List β} :
    joinAll f (values ++ more) =
      (joinAll f values).bind fun head => (joinAll f more).map (head ++ ·) := by
  induction values with
  | nil => cases more_ : joinAll f more <;> simp [joinAll, more_]
  | cons value rest ih =>
      cases head : f value with
      | none => simp [joinAll, head]
      | some first =>
          cases middle : joinAll f rest with
          | none => simp [joinAll, head, ih, middle]
          | some second =>
              cases tail : joinAll f more <;> simp [joinAll, head, ih, middle, tail]

theorem joinAll_congr {g : β → Option Compound}
    (same : ∀ value ∈ values, f value = g value) :
    joinAll f values = joinAll g values := by
  induction values with
  | nil => rfl
  | cons value rest ih =>
      rw [List.forall_mem_cons] at same
      rw [joinAll, joinAll, same.1, ih same.2]

theorem joinAll_map {g : γ → β} {list : List γ} :
    joinAll f (list.map g) = joinAll (fun value => f (g value)) list := by
  induction list with
  | nil => rfl
  | cons value rest ih => rw [List.map_cons, joinAll, joinAll, ih]

theorem joinAll_flatMap {g : γ → List β} {list : List γ} :
    joinAll f (list.flatMap g) = joinAll (fun value => joinAll f (g value)) list := by
  induction list with
  | nil => rfl
  | cons value rest ih => rw [List.flatMap_cons, joinAll_append, joinAll, ih]

theorem joinAll_mono {g : β → Option Compound}
    (implies : ∀ value ∈ values, ∀ part, f value = some part → g value = some part)
    (found : joinAll f values = some result) : joinAll g values = some result := by
  obtain ⟨all, _⟩ := joinAll_eq_some_iff.mp found
  rw [← found]
  refine joinAll_congr fun value member => ?_
  obtain ⟨part, here⟩ := all value member
  rw [here, implies value member part here]

theorem mapAll_mono {f g : Compound → Option Compound} {bindings results : Bindings}
    (implies : ∀ value part, f value = some part → g value = some part)
    (found : mapAll f bindings = some results) : mapAll g bindings = some results := by
  induction bindings generalizing results with
  | nil => exact found
  | cons binding rest ih =>
      obtain ⟨name, value⟩ := binding
      obtain ⟨head, first, others⟩ := Option.bind_eq_some_iff.mp found
      obtain ⟨tail, last, rfl⟩ := Option.map_eq_some_iff.mp others
      simp [mapAll, implies value head first, ih last]

theorem mapAll_eq_some_iff {g : Compound → Option Compound}
    {bindings results : Bindings} : mapAll g bindings = some results ↔
      (∀ binding ∈ bindings, ∃ part, g binding.2 = some part) ∧
        results = OrderedMap.mapValues (fun value => (g value).getD []) bindings := by
  induction bindings generalizing results with
  | nil => simp [mapAll, OrderedMap.mapValues, eq_comm]
  | cons binding rest ih =>
      obtain ⟨name, value⟩ := binding
      cases head : g value with
      | none => simp [mapAll, head]
      | some first =>
          cases tail : mapAll g rest with
          | none =>
              have never : ¬∀ binding ∈ rest, ∃ part, g binding.2 = some part := by
                intro all
                simp [ih.mpr ⟨all, rfl⟩] at tail
              simp only [mapAll, head, tail, Option.bind_some, Option.map_none,
                reduceCtorEq, List.forall_mem_cons, never, and_false, false_and]
          | some last =>
              obtain ⟨all, rfl⟩ := ih.mp tail
              simp only [mapAll, head, tail, Option.bind_some, Option.map_some,
                Option.some.injEq, List.forall_mem_cons, exists_eq', true_and,
                OrderedMap.mapValues, List.map_cons, Option.getD_some]
              exact ⟨fun same => ⟨all, same.symm⟩, fun both => both.2.symm⟩

end Lists

namespace Oracle

section Definitions

variable (oracle : Oracle) (lookup : String → Option Compound)

/-- The output that a placeholder stands for, as far as it is known. -/
def settle (placeholder : Placeholder) : Compound :=
  (oracle.output? placeholder.ticket placeholder.channel).getD [.ticket placeholder]

def evalInvocation (invocation : Invocation) : Option Compound :=
  match invocation.lambda.prototype.output? invocation.channel with
  | none => oracle.fallback
  | some _ =>
      if invocation.toApply.areArgumentsNormal then
        match oracle.placeholder invocation.toApply with
        | some placeholder => some (oracle.settle placeholder)
        | none => oracle.fallback
      else some [invocation.toApply.toTerm]

def evalPart : Part → Option Compound
  | .keep apply => some [apply.toTerm]
  | .invoke invocation => oracle.evalInvocation invocation
  | .reject _ => oracle.fallback

def evalApply (apply : Apply) : Option Compound :=
  joinAll oracle.evalPart apply.expand

def evalTerm (recurse : Compound → Option Compound) : Term → Option Compound
  | .str value => some [.str value]
  | .lambda value => some [.lambda value]
  | .name name =>
      match lookup name with
      | none => some [.name name]
      | some bound => recurse bound
  | .ticket placeholder => some (oracle.settle placeholder)
  | .apply task bindings channel rest =>
      (recurse task).bind fun task => (mapAll recurse bindings).bind fun bindings =>
        oracle.evalApply { task, bindings, channel, rest }
  | _ => none

/-- The value of a compound, found within some depth. -/
def eval : Nat → Compound → Option Compound
  | 0, _ => none
  | depth + 1, compound => joinAll (oracle.evalTerm lookup (eval depth)) compound

/-- The value of a term that has one. -/
def value (depth : Nat) (term : Term) : Compound :=
  (oracle.eval lookup depth [term]).getD []

end Definitions

variable {oracle : Oracle} {lookup : String → Option Compound} {depth : Nat}
  {compound result : Compound} {apply : Apply}

theorem eval_singleton {term : Term} :
    oracle.eval lookup (depth + 1) [term] =
      oracle.evalTerm lookup (oracle.eval lookup depth) term := by
  cases found : oracle.evalTerm lookup (oracle.eval lookup depth) term <;>
    simp [eval, joinAll, found]

theorem eval_eq_some_iff :
    oracle.eval lookup depth compound = some result ↔
      0 < depth ∧ (∀ term ∈ compound, ∃ part, oracle.eval lookup depth [term] = some part) ∧
        result = compound.flatMap (oracle.value lookup depth) := by
  cases depth with
  | zero => simp [eval]
  | succ depth =>
      have each : oracle.value lookup (depth + 1) =
          fun term => (oracle.evalTerm lookup (oracle.eval lookup depth) term).getD [] := by
        funext term
        rw [value, eval_singleton]
      simp only [eval_singleton, each]
      rw [eval, joinAll_eq_some_iff]
      simp

theorem eval_append {more tail : Compound}
    (head : oracle.eval lookup depth compound = some result)
    (last : oracle.eval lookup depth more = some tail) :
    oracle.eval lookup depth (compound ++ more) = some (result ++ tail) := by
  cases depth with
  | zero => simp [eval] at head
  | succ depth =>
      rw [eval] at head last ⊢
      rw [joinAll_append, head, last]
      rfl

theorem keepsValues (positive : 0 < depth) : KeepsValues (oracle.value lookup depth) := by
  obtain ⟨depth, rfl⟩ := Nat.exists_eq_succ_of_ne_zero (Nat.ne_of_gt positive)
  intro term normal
  cases term <;> simp_all [Term.isNormal, value, eval_singleton, evalTerm]

/-- Everything in the application has a value. -/
structure Evaluates (oracle : Oracle) (lookup : String → Option Compound) (depth : Nat)
    (apply : Apply) : Prop where
  positive : 0 < depth
  task : ∀ term ∈ apply.task, ∃ part, oracle.eval lookup depth [term] = some part
  bindings :
    ∀ term, BoundIn apply.bindings term →
    ∃ part, oracle.eval lookup depth [term] = some part

theorem mapAll_eval_eq_some_iff {bindings results : Bindings} (positive : 0 < depth) :
    mapAll (oracle.eval lookup depth) bindings = some results ↔
      (∀ term, BoundIn bindings term → ∃ part, oracle.eval lookup depth [term] = some part) ∧
        results =
          OrderedMap.mapValues (List.flatMap (oracle.value lookup depth)) bindings := by
  rw [mapAll_eq_some_iff]
  have each :
      (∀ binding ∈ bindings, ∃ part, oracle.eval lookup depth binding.2 = some part) ↔
      ∀ term, BoundIn bindings term →
      ∃ part, oracle.eval lookup depth [term] = some part := by
    constructor
    · rintro all term ⟨binding, member, inside⟩
      obtain ⟨part, found⟩ := all binding member
      exact (eval_eq_some_iff.mp found).2.1 term inside
    · intro all binding member
      exact ⟨_, eval_eq_some_iff.mpr
        ⟨positive, fun term inside => all term ⟨binding, member, inside⟩, rfl⟩⟩
  rw [each]
  refine and_congr_right fun all => ?_
  have same : OrderedMap.mapValues (fun value => (oracle.eval lookup depth value).getD [])
      bindings = OrderedMap.mapValues (List.flatMap (oracle.value lookup depth)) bindings := by
    refine List.map_congr_left fun binding member => ?_
    have found : oracle.eval lookup depth binding.2 =
        some (binding.2.flatMap (oracle.value lookup depth)) :=
      eval_eq_some_iff.mpr
        ⟨positive, fun term inside => all term ⟨binding, member, inside⟩, rfl⟩
    simp [found]
  rw [same]

/-- An application is evaluated by evaluating everything in it and then expanding it. -/
theorem eval_apply_eq_some_iff :
    oracle.eval lookup (depth + 1) [apply.toTerm] = some result ↔
      Evaluates oracle lookup depth apply ∧
        oracle.evalApply (apply.advance (oracle.value lookup depth)) = some result := by
  rw [eval_singleton]
  simp only [Apply.toTerm, evalTerm]
  constructor
  · intro found
    obtain ⟨task, evaluated, found⟩ := Option.bind_eq_some_iff.mp found
    obtain ⟨bindings, mapped, found⟩ := Option.bind_eq_some_iff.mp found
    obtain ⟨positive, tasks, rfl⟩ := eval_eq_some_iff.mp evaluated
    obtain ⟨bound, rfl⟩ := (mapAll_eval_eq_some_iff positive).mp mapped
    exact ⟨⟨positive, tasks, bound⟩, found⟩
  · rintro ⟨⟨positive, tasks, bound⟩, found⟩
    have evaluated := eval_eq_some_iff.mpr ⟨positive, tasks, rfl⟩
    have mapped := (mapAll_eval_eq_some_iff positive).mpr ⟨bound, rfl⟩
    rw [evaluated, mapped]
    exact found

/-- Evaluating an application and then expanding it comes to the same as expanding it, and
evaluating and expanding what is left of it. -/
theorem evalApply_advance {further : Term → Compound} (keeps : KeepsValues further)
    (uncrowded : apply.Uncrowded) : oracle.evalApply (apply.advance further) =
      joinAll (fun part => joinAll oracle.evalPart (part.later further)) apply.expand := by
  have sameParts : (apply.advance further).expand.map oracle.evalPart =
      (apply.expand.flatMap (Part.later further)).map oracle.evalPart :=
    Apply.expand_advance keeps (fun _ _ => rfl) uncrowded
  have identity (parts : List Part) :
      joinAll oracle.evalPart parts = joinAll id (parts.map oracle.evalPart) := by
    rw [joinAll_map]
    rfl
  rw [evalApply, identity, sameParts, ← identity, joinAll_flatMap]

/-- The second oracle knows the same and rejects no more. -/
structure NoStricter (first second : Oracle) : Prop where
  placeholder : first.placeholder = second.placeholder
  output? : first.output? = second.output?
  fallback : first.fallback = none ∨ first.fallback = second.fallback

variable {other : Oracle}

theorem NoStricter.refl (oracle : Oracle) : NoStricter oracle oracle :=
  ⟨rfl, rfl, .inr rfl⟩

theorem NoStricter.settle (noStricter : NoStricter oracle other)
    (placeholder : Placeholder) :
    oracle.settle placeholder = other.settle placeholder := by
  rw [Oracle.settle, noStricter.output?, ← Oracle.settle]

theorem NoStricter.evalPart (noStricter : NoStricter oracle other) {part : Part}
    (found : oracle.evalPart part = some result) : other.evalPart part = some result := by
  have rejected : oracle.fallback = some result → other.fallback = some result := by
    intro same
    rcases noStricter.fallback with none | equal
    · simp [none] at same
    · exact equal ▸ same
  cases part with
  | keep kept => exact found
  | reject error => exact rejected found
  | invoke invocation =>
      simp only [Oracle.evalPart, evalInvocation] at found ⊢
      rw [← noStricter.placeholder]
      cases present : invocation.lambda.prototype.output? invocation.channel with
      | none => exact rejected (by simpa [present] using found)
      | some output =>
          simp only [present] at found ⊢
          split
          next normal =>
            rw [if_pos normal] at found
            cases issued : oracle.placeholder invocation.toApply with
            | none => exact rejected (by simpa [issued] using found)
            | some placeholder => simpa [issued, noStricter.settle] using found
          next waits =>
            rw [if_neg waits] at found
            exact found

/-- A value is found again with more depth, and where less is rejected. -/
theorem NoStricter.eval (noStricter : NoStricter oracle other) {more : Nat}
    (deeper : depth ≤ more) (found : oracle.eval lookup depth compound = some result) :
    other.eval lookup more compound = some result := by
  induction depth generalizing more compound result with
  | zero => simp [Oracle.eval] at found
  | succ depth ih =>
      obtain ⟨more, rfl⟩ :=
        Nat.exists_eq_succ_of_ne_zero (Nat.ne_of_gt (Nat.lt_of_lt_of_le depth.succ_pos deeper))
      have recurse : ∀ compound part, oracle.eval lookup depth compound = some part →
          other.eval lookup more compound = some part :=
        fun _ _ => ih (Nat.le_of_succ_le_succ deeper)
      refine joinAll_mono (fun term _ part here => ?_) found
      cases term with
      | str value => exact here
      | lambda value => exact here
      | cond => simp [evalTerm] at here
      | curry => simp [evalTerm] at here
      | ticket placeholder => simpa [evalTerm, noStricter.settle] using here
      | name name =>
          simp only [evalTerm] at here ⊢
          cases bound : lookup name with
          | none => simpa [bound] using here
          | some value =>
              simp only [bound] at here
              exact recurse value part here
      | apply task bindings channel rest =>
          simp only [evalTerm] at here ⊢
          obtain ⟨tasks, evaluated, here⟩ := Option.bind_eq_some_iff.mp here
          obtain ⟨arguments, mapped, here⟩ := Option.bind_eq_some_iff.mp here
          rw [recurse task tasks evaluated, Option.bind_some, mapAll_mono recurse mapped,
            Option.bind_some]
          exact joinAll_mono (fun _ _ _ => noStricter.evalPart) here

theorem eval_mono {more : Nat} (deeper : depth ≤ more)
    (found : oracle.eval lookup depth compound = some result) :
    oracle.eval lookup more compound = some result :=
  (NoStricter.refl oracle).eval deeper found

/-- A compound has one value, whatever depth it is found within. -/
theorem eval_unique {more : Nat} {value : Compound}
    (found : oracle.eval lookup depth compound = some result)
    (again : oracle.eval lookup more compound = some value) : result = value := by
  rcases Nat.le_total depth more with deeper | deeper
  · exact Option.some.inj ((eval_mono deeper found).symm.trans again)
  · exact Option.some.inj (found.symm.trans (eval_mono deeper again))

end Oracle

end TicketFlow
