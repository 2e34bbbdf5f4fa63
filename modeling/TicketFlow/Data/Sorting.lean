namespace TicketFlow

/-! Lists in ascending order of a numeric key.

Sorting inserts the elements one by one, so it keeps exactly the elements and
their number, and equal keys stay in their order.
-/

universe u

namespace Sorting

variable {α : Type u} {key : α → Nat}

/-- Inserts before the first element with a key that is not smaller. -/
def insertInto (key : α → Nat) (value : α) : List α → List α
  | [] => [value]
  | head :: rest =>
      if key value ≤ key head then value :: head :: rest else
        head :: insertInto key value rest

def sortOn (key : α → Nat) : List α → List α
  | [] => []
  | value :: rest => insertInto key value (sortOn key rest)

theorem perm_insertInto (value : α) (values : List α) :
    (insertInto key value values).Perm (value :: values) := by
  induction values with
  | nil => exact .refl _
  | cons head rest ih =>
      by_cases first : key value ≤ key head
      · simp [insertInto, first]
      · simpa only [insertInto, first,
          if_false] using (ih.cons head).trans (.swap value head rest)

theorem perm_sortOn (values : List α) : (sortOn key values).Perm values := by
  induction values with
  | nil => exact .refl _
  | cons value rest ih => exact (perm_insertInto value _).trans (ih.cons value)

@[simp] theorem mem_sortOn {value : α} {values : List α} :
    value ∈ sortOn key values ↔ value ∈ values :=
  (perm_sortOn values).mem_iff

theorem pairwise_insertInto {value : α} {values : List α}
    (sorted : values.Pairwise fun left right => key left ≤ key right) :
    (insertInto key value values).Pairwise fun left right => key left ≤ key right := by
  induction values with
  | nil => simp [insertInto]
  | cons head rest ih =>
      rw [List.pairwise_cons] at sorted
      by_cases first : key value ≤ key head
      · simp only [insertInto, first, if_true, List.pairwise_cons, List.mem_cons,
          forall_eq_or_imp, true_and]
        exact ⟨fun other member => Nat.le_trans first (sorted.1 other member), sorted⟩
      · simp only [insertInto, first, if_false, List.pairwise_cons]
        refine ⟨fun other member => ?_, ih sorted.2⟩
        rcases List.mem_cons.mp ((perm_insertInto value rest).mem_iff.mp member) with
            same | member
        · exact same ▸ Nat.le_of_lt (Nat.lt_of_not_le first)
        · exact sorted.1 other member

theorem pairwise_sortOn (values : List α) :
    (sortOn key values).Pairwise fun left right => key left ≤ key right := by
  induction values with
  | nil => exact .nil
  | cons value rest ih => exact pairwise_insertInto ih

/-- Distinct elements with distinct keys are in strictly ascending order. -/
theorem pairwise_lt_sortOn {values : List α} (unrepeated : values.Nodup)
    (injective : ∀ {left right}, key left = key right → left = right) :
    (sortOn key values).Pairwise fun left right => key left < key right := by
  have distinct : (sortOn key values).Nodup :=
    (perm_sortOn values).nodup_iff.mpr unrepeated
  refine ((pairwise_sortOn values).and distinct).imp ?_
  rintro left right ⟨ordered, apart⟩
  exact Nat.lt_of_le_of_ne ordered fun same => apart (injective same)

end Sorting

end TicketFlow
