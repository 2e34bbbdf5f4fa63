import Mathlib.Data.List.Nodup
import Mathlib.Data.List.Perm.Subperm
import Mathlib.Order.Lattice
import TicketFlow.Proofs.Data.OrderedMap

namespace TicketFlow.OrderedMap

/-! Maps that are kept in the order of their keys.

Reading entries into key order only rearranges them, if no key occurs twice.
Where the order goes by a rank that tells keys apart, there is one arrangement
for each view: maps that are looked up alike are sorted into the same list.
-/

universe u v w

variable {κ : Type u} {α : Type v} [DecidableEq κ] {map left right : OrderedMap κ α}
  {key : κ} {value : α} {before : κ → κ → Bool}

section Views

theorem get?_eq_none (absent : key ∉ keys map) : get? map key = none := by
  cases found : get? map key with
  | none => rfl
  | some value => exact absurd (List.mem_map.mpr ⟨_, mem_of_get? found, rfl⟩) absent

omit [DecidableEq κ] in
theorem Distinct.perm (distinct : Distinct left) (perm : right.Perm left) :
    Distinct right :=
  (perm.map Prod.fst).nodup_iff.mpr distinct

theorem Distinct.get?_perm (distinct : Distinct left) (perm : right.Perm left) :
    get? right key = get? left key := by
  refine Option.ext fun value => ?_
  rw [← mem_iff_get? distinct, ← mem_iff_get? (distinct.perm perm), perm.mem_iff]

/-- Maps that are looked up alike have the same entries. -/
theorem Distinct.perm_iff (one : Distinct left) (two : Distinct right) :
    left.Perm right ↔ ∀ key, get? left key = get? right key := by
  refine ⟨fun perm key => two.get?_perm perm, fun alike => ?_⟩
  rw [List.perm_ext_iff_of_nodup (List.Nodup.of_map _ one) (List.Nodup.of_map _ two)]
  rintro ⟨key, value⟩
  rw [mem_iff_get? one, mem_iff_get? two, alike]

/-- To compare two maps it is enough to count their entries and to look those of the
first up in the second. -/
theorem Distinct.alike_iff (one : Distinct left) (two : Distinct right) :
    (∀ key, get? left key = get? right key) ↔
      left.length = right.length ∧ ∀ entry ∈ left, get? right entry.1 = some entry.2 := by
  constructor
  · intro alike
    refine ⟨((one.perm_iff two).mpr alike).length_eq, fun entry member => ?_⟩
    rw [← alike]
    exact (mem_iff_get? one).mp member
  · rintro ⟨size, found⟩
    have inside : left ⊆ right := fun entry member => mem_of_get? (found entry member)
    have perm : left.Perm right :=
      ((List.Nodup.of_map _ one).subperm inside).perm_of_length_le (Nat.le_of_eq size.symm)
    exact (one.perm_iff two).mp perm

/-- Maps with the same keys in the same order are equal if they are looked up alike. -/
theorem Distinct.eq_of_keys (distinct : Distinct left) (same : keys left = keys right)
    (alike : ∀ key, get? left key = get? right key) : left = right := by
  induction left generalizing right with
  | nil => exact (List.map_eq_nil_iff.mp same.symm).symm
  | cons entry rest ih =>
      obtain ⟨key, value⟩ := entry
      obtain ⟨fresh, restDistinct⟩ := List.nodup_cons.mp distinct
      cases right with
      | nil => simp [keys] at same
      | cons other others =>
          obtain ⟨otherKey, otherValue⟩ := other
          obtain ⟨rfl, restKeys⟩ : key = otherKey ∧ keys rest = keys others :=
            List.cons.inj same
          have values : value = otherValue := by simpa [get?] using alike key
          refine congrArg₂ List.cons (Prod.ext rfl values)
            (ih restDistinct restKeys fun sought => ?_)
          by_cases own : key = sought
          · subst own
            rw [get?_eq_none fresh, get?_eq_none (restKeys ▸ fresh)]
          · simpa [get?, own] using alike sought

end Views

section Rearranged

theorem perm_insertSorted (fresh : key ∉ keys map) :
    (insertSorted before map key value).Perm ((key, value) :: map) := by
  induction map with
  | nil => exact .refl _
  | cons entry rest ih =>
      obtain ⟨present, old⟩ := entry
      have apart : present ≠ key := fun same => fresh (same ▸ List.mem_cons_self)
      have absent : key ∉ keys rest := fun member => fresh (List.mem_cons_of_mem _ member)
      simp only [insertSorted, apart, if_false]
      split
      · exact .refl _
      · exact ((ih absent).cons (present, old)).trans (.swap _ _ _)

/-- The next entry of a list without repeated keys goes to those that are in order already. -/
theorem perm_insertSorted_append {entry : κ × α} {rest : List (κ × α)}
    (before : κ → κ → Bool) (distinct : Distinct (left ++ entry :: rest)) :
    entry.1 ∉ keys left ∧
      (insertSorted before left entry.1 entry.2 ++ rest).Perm (left ++ entry :: rest) := by
  have fresh : entry.1 ∉ keys left := by
    intro member
    rw [Distinct, keys, List.map_append, List.nodup_append] at distinct
    exact distinct.2.2 _ member _ List.mem_cons_self rfl
  exact ⟨fresh, ((perm_insertSorted fresh).append_right rest).trans List.perm_middle.symm⟩

theorem perm_foldl_insertSorted (distinct : Distinct (left ++ right)) :
    (right.foldl (fun map entry => insertSorted before map entry.1 entry.2) left).Perm
      (left ++ right) := by
  induction right generalizing left with
  | nil => simp
  | cons entry rest ih =>
      have inserted := (perm_insertSorted_append before distinct).2
      exact (ih (distinct.perm inserted)).trans inserted

theorem perm_sortedOfList (distinct : Distinct map) :
    (sortedOfList before map).Perm map :=
  perm_foldl_insertSorted (by simpa using distinct)

theorem Distinct.sortedOfList (distinct : Distinct map) :
    Distinct (sortedOfList before map) :=
  distinct.perm (perm_sortedOfList distinct)

theorem get?_sortedOfList (distinct : Distinct map) :
    get? (sortedOfList before map) key = get? map key :=
  distinct.get?_perm (perm_sortedOfList distinct)

end Rearranged

section Ranked

/-- The order goes by the ranks of the keys, and different keys have different ranks. -/
structure Ranks {σ : Type w} [LinearOrder σ] (before : κ → κ → Bool)
    (rank : κ → σ) : Prop where
  injective : Function.Injective rank
  before_iff : ∀ {left right}, before left right = true ↔ rank left < rank right

variable {σ : Type w} [LinearOrder σ] {rank : κ → σ}

theorem Ranks.insertSorted (ranks : Ranks before rank)
    (sorted : map.Pairwise fun left right => rank left.1 < rank right.1)
    (fresh : key ∉ keys map) :
    (OrderedMap.insertSorted before map key value).Pairwise
      fun left right => rank left.1 < rank right.1 := by
  induction map with
  | nil => exact List.pairwise_singleton _ _
  | cons entry rest ih =>
      obtain ⟨present, old⟩ := entry
      have apart : present ≠ key := fun same => fresh (same ▸ List.mem_cons_self)
      have absent : key ∉ keys rest := fun member => fresh (List.mem_cons_of_mem _ member)
      obtain ⟨first, restSorted⟩ := List.pairwise_cons.mp sorted
      simp only [OrderedMap.insertSorted, apart, if_false]
      split
      next earlier =>
        have lower : rank key < rank present := ranks.before_iff.mp earlier
        refine List.pairwise_cons.mpr ⟨fun other member => ?_, sorted⟩
        rcases List.mem_cons.mp member with rfl | later
        · exact lower
        · exact lt_trans lower (first other later)
      next later =>
        have above : rank present < rank key := by
          rcases lt_trichotomy (rank present) (rank key) with above | same | lower
          · exact above
          · exact absurd (ranks.injective same) apart
          · exact absurd (ranks.before_iff.mpr lower) later
        refine List.pairwise_cons.mpr ⟨fun other member => ?_, ih restSorted absent⟩
        rcases List.mem_cons.mp ((perm_insertSorted absent).mem_iff.mp member) with
            rfl | inside
        · exact above
        · exact first other inside

theorem Ranks.foldl_insertSorted (ranks : Ranks before rank)
    (sorted : left.Pairwise fun left right => rank left.1 < rank right.1)
    (distinct : Distinct (left ++ right)) :
    (right.foldl
      (fun map entry => OrderedMap.insertSorted before map entry.1 entry.2) left).Pairwise
      fun left right => rank left.1 < rank right.1 := by
  induction right generalizing left with
  | nil => exact sorted
  | cons entry rest ih =>
      obtain ⟨fresh, inserted⟩ := perm_insertSorted_append before distinct
      exact ih (ranks.insertSorted sorted fresh) (distinct.perm inserted)

theorem Ranks.sortedOfList (ranks : Ranks before rank) (distinct : Distinct map) :
    (OrderedMap.sortedOfList before map).Pairwise
      fun left right => rank left.1 < rank right.1 :=
  ranks.foldl_insertSorted .nil (by simpa using distinct)

/-- In key order the same list stands for the same map. -/
theorem Ranks.sortedOfList_eq_iff (ranks : Ranks before rank)
    (one : Distinct left) (two : Distinct right) :
    OrderedMap.sortedOfList before left = OrderedMap.sortedOfList before right ↔
      ∀ key, get? left key = get? right key := by
  constructor
  · intro same key
    rw [← get?_sortedOfList one, same, get?_sortedOfList two]
  · intro alike
    have perm : (OrderedMap.sortedOfList before left).Perm
        (OrderedMap.sortedOfList before right) :=
      ((perm_sortedOfList one).trans ((one.perm_iff two).mpr alike)).trans
        (perm_sortedOfList two).symm
    exact perm.eq_of_pairwise
      (fun _ _ _ _ lower higher => absurd (lt_trans lower higher) (lt_irrefl _))
      (ranks.sortedOfList one) (ranks.sortedOfList two)

end Ranked

end TicketFlow.OrderedMap
