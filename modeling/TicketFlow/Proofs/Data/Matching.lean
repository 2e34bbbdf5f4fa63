import Mathlib.Data.List.Forall2
import TicketFlow.Proofs.Data.OrderedMap

namespace TicketFlow.OrderedMap

/-! Maps that match.

Two maps match if they have the same keys in the same order, with related values
under them.  Whatever is done by key, with related values, keeps them matching.
-/

variable {κ α β : Type} {r : α → β → Prop} {left : OrderedMap κ α}
  {right : OrderedMap κ β} {key : κ} {value : α} {other : β}

/-- The same keys in the same order, and related values under them. -/
inductive Matches (r : α → β → Prop) : OrderedMap κ α → OrderedMap κ β → Prop where
  | nil : Matches r [] []
  | cons {key : κ} {value : α} {other : β}
      {left : OrderedMap κ α} {right : OrderedMap κ β} :
      r value other → Matches r left right →
      Matches r ((key, value) :: left) ((key, other) :: right)

theorem Matches.keys (matches_ : Matches r left right) : keys right = keys left := by
  induction matches_ with
  | nil => rfl
  | cons _ _ ih => exact congrArg _ ih

theorem matches_refl {r : α → α → Prop} (related : ∀ entry ∈ left, r entry.2 entry.2) :
    Matches r left left := by
  induction left with
  | nil => exact .nil
  | cons entry rest ih =>
      rw [List.forall_mem_cons] at related
      exact .cons related.1 (ih related.2)

theorem Matches.mem_left (matches_ : Matches r left right)
    (member : (key, value) ∈ left) : ∃ other, (key, other) ∈ right ∧ r value other := by
  induction matches_ with
  | nil => simp at member
  | cons related _ ih =>
      rcases List.mem_cons.mp member with same | later
      · obtain ⟨rfl, rfl⟩ := Prod.mk.inj same
        exact ⟨_, List.mem_cons_self, related⟩
      · obtain ⟨other, inside, related⟩ := ih later
        exact ⟨other, List.mem_cons_of_mem _ inside, related⟩

theorem Matches.mem_right (matches_ : Matches r left right)
    (member : (key, other) ∈ right) : ∃ value, (key, value) ∈ left ∧ r value other := by
  induction matches_ with
  | nil => simp at member
  | cons related _ ih =>
      rcases List.mem_cons.mp member with same | later
      · obtain ⟨rfl, rfl⟩ := Prod.mk.inj same
        exact ⟨_, List.mem_cons_self, related⟩
      · obtain ⟨value, inside, related⟩ := ih later
        exact ⟨value, List.mem_cons_of_mem _ inside, related⟩

theorem Matches.append {further : OrderedMap κ α} {others : OrderedMap κ β}
    (first : Matches r left right) (second : Matches r further others) :
    Matches r (left ++ further) (right ++ others) := by
  induction first with
  | nil => exact second
  | cons related _ ih => exact .cons related ih

theorem matches_reverse (matches_ : Matches r left right) :
    Matches r left.reverse right.reverse := by
  induction matches_ with
  | nil => exact .nil
  | cons related _ ih =>
      rw [List.reverse_cons, List.reverse_cons]
      exact ih.append (.cons related .nil)

theorem Matches.filter (matches_ : Matches r left right) (keep : κ → Bool) :
    Matches r (left.filter fun entry => keep entry.1)
      (right.filter fun entry => keep entry.1) := by
  induction matches_ with
  | nil => exact .nil
  | @cons key value other left right related _ ih =>
      cases kept : keep key with
      | true => simpa [List.filter_cons, kept] using Matches.cons related ih
      | false => simpa [List.filter_cons, kept] using ih

theorem rel_none_right {early : Option α} (related : Option.Rel r early none) :
    early = none := by
  cases related
  rfl

theorem rel_some_right {early : Option α} (related : Option.Rel r early (some other)) :
    ∃ value, early = some value ∧ r value other := by
  cases related with
  | some related => exact ⟨_, rfl, related⟩

section Lookup

variable [DecidableEq κ]

theorem Matches.get? (matches_ : Matches r left right) (key : κ) :
    Option.Rel r (get? left key) (get? right key) := by
  induction matches_ with
  | nil => exact .none
  | @cons present value other left right related _ ih =>
      by_cases same : present = key
      · simpa [OrderedMap.get?, same] using related
      · simpa [OrderedMap.get?, same] using ih

theorem Matches.get?_some (matches_ : Matches r left right)
    (found : OrderedMap.get? left key = some value) :
    ∃ other, OrderedMap.get? right key = some other ∧ r value other := by
  have related := matches_.get? key
  rw [found] at related
  cases there : OrderedMap.get? right key with
  | none => simp [there] at related
  | some other => exact ⟨other, rfl, by simpa [there] using related⟩

theorem Matches.get?_none (matches_ : Matches r left right)
    (unbound : OrderedMap.get? left key = none) : OrderedMap.get? right key = none := by
  have related := matches_.get? key
  rw [unbound] at related
  cases there : OrderedMap.get? right key with
  | none => rfl
  | some other => simp [there] at related

theorem Matches.contains (matches_ : Matches r left right) :
    contains right key = contains left key := by
  cases found : OrderedMap.get? left key with
  | none => simp [OrderedMap.contains, found, matches_.get?_none found]
  | some value =>
      obtain ⟨other, there, _⟩ := matches_.get?_some found
      simp [OrderedMap.contains, found, there]

theorem Matches.insert (matches_ : Matches r left right) (related : r value other) :
    Matches r (insert left key value) (insert right key other) := by
  induction matches_ with
  | nil => exact .cons related .nil
  | @cons present _ _ left right here rest ih =>
      by_cases same : present = key
      · simpa [OrderedMap.insert, same] using Matches.cons related rest
      · simpa [OrderedMap.insert, same] using Matches.cons here ih

theorem Matches.erase (matches_ : Matches r left right) :
    Matches r (erase left key) (erase right key) := by
  induction matches_ with
  | nil => exact .nil
  | @cons present _ _ left right here _ ih =>
      by_cases same : present = key
      · simpa [OrderedMap.erase, same] using ih
      · simpa [OrderedMap.erase, same] using Matches.cons here ih

end Lookup

end TicketFlow.OrderedMap
