import Mathlib.Data.List.TakeWhile
import TicketFlow.Arena.Collect

namespace TicketFlow.Arena

/-! What a collection keeps.

Every block that is there after a collection was there before it, or is empty;
the first of the roots is always kept.  The slots that a collection releases
are slots of the arena, each listed once.
-/

variable {arena : Arena} {marked : List Bool} {blocks : List Block}
  {start steps index : Nat}

section Marks

theorem getElem?_markPending {pending : List BlockId}
    (mark : marked[index]? = some true) :
    (arena.markPending steps marked pending)[index]? = some true := by
  induction steps generalizing marked pending with
  | zero => exact mark
  | succ steps ih =>
      unfold markPending
      split
      · exact mark
      next block rest _ =>
        refine ih ?_
        rw [List.getElem?_set]
        split
        next same =>
          have within : index < marked.length := (List.getElem?_eq_some_iff.mp mark).1
          simp [same, within]
        next => exact mark

theorem length_markPending {pending : List BlockId} :
    (arena.markPending steps marked pending).length = marked.length := by
  induction steps generalizing marked pending with
  | zero => rfl
  | succ steps ih =>
      unfold markPending
      split
      · rfl
      · rw [ih, List.length_set]

theorem getElem?_reached {root : BlockId} {roots : List BlockId}
    {live : List Compound} (within : root.index < arena.slots) :
    (arena.reached (root :: roots) live)[root.index]? = some true := by
  obtain ⟨steps, slots⟩ :=
    Nat.exists_eq_succ_of_ne_zero (Nat.ne_of_gt (Nat.lt_of_le_of_lt root.index.zero_le within))
  have unmarked : isUnmarked (List.replicate (steps + 1) false) root = true := by
    rw [slots] at within
    simp [isUnmarked, within]
  unfold reached
  rw [slots, List.cons_append, markPending,
    List.dropWhile_cons_of_neg (by simp [unmarked])]
  refine getElem?_markPending ?_
  rw [slots] at within
  simp [within]

theorem trimMarks_prefix : trimMarks marked <+: marked := by
  have ends : (marked.reverse.dropWhile fun mark => !mark) <:+ marked.reverse :=
    List.dropWhile_suffix _
  simpa [trimMarks] using List.reverse_prefix.mpr ends

/-- The marks that are cut off are all unset. -/
theorem getElem?_trimMarks (mark : marked[index]? = some true) :
    (trimMarks marked)[index]? = some true := by
  have whole : trimMarks marked ++ (marked.reverse.takeWhile fun mark => !mark).reverse =
      marked := by
    rw [trimMarks, ← List.reverse_append, List.takeWhile_append_dropWhile,
      List.reverse_reverse]
  rw [← whole] at mark
  rcases Nat.lt_or_ge index (trimMarks marked).length with within | beyond
  · rwa [List.getElem?_append_left within] at mark
  · rw [List.getElem?_append_right beyond] at mark
    have among := List.mem_reverse.mp (List.mem_of_getElem? mark)
    have unset := List.mem_takeWhile_imp among
    simp at unset

end Marks

section Slots

theorem getElem?_keepMarked :
    (keepMarked blocks marked)[index]? =
      (blocks[index]?).bind fun block =>
        (marked[index]?).map fun mark => if mark then block else {} := by
  induction blocks generalizing marked index with
  | nil => simp [keepMarked]
  | cons block blocks ih =>
      cases marked with
      | nil => simp [keepMarked]
      | cons mark marks =>
          cases index with
          | zero => simp [keepMarked]
          | succ index => simpa [keepMarked] using ih

theorem mem_unmarkedFrom {slot : BlockId} :
    slot ∈ unmarkedFrom start marked ↔
      start ≤ slot.index ∧ marked[slot.index - start]? = some false := by
  induction marked generalizing start with
  | nil => simp [unmarkedFrom]
  | cons mark marks ih =>
      have first : slot = ⟨start⟩ ↔ slot.index = start := by
        constructor
        · rintro rfl; rfl
        · rintro rfl; rfl
      have later : slot ∈ unmarkedFrom (start + 1) marks ↔
          start < slot.index ∧ (mark :: marks)[slot.index - start]? = some false := by
        rw [ih]
        refine and_congr_right fun after => ?_
        rw [show slot.index - start = (slot.index - (start + 1)) + 1 by omega,
          List.getElem?_cons_succ]
      rw [unmarkedFrom]
      rcases Nat.lt_trichotomy slot.index start with before | same | after
      · have apart : slot.index ≠ start := Nat.ne_of_lt before
        cases mark <;> simp [first, later, apart, Nat.not_le_of_lt before,
          Nat.lt_asymm before]
      · cases mark <;> simp [first, later, same]
      · have apart : slot.index ≠ start := Nat.ne_of_gt after
        cases mark <;> simp [first, later, apart, after, Nat.le_of_lt after]

theorem nodup_unmarkedFrom : (unmarkedFrom start marked).Nodup := by
  induction marked generalizing start with
  | nil => exact List.nodup_nil
  | cons mark marks ih =>
      cases mark with
      | true => exact ih
      | false =>
          refine List.nodup_cons.mpr ⟨fun member => ?_, ih⟩
          have after := (mem_unmarkedFrom.mp member).1
          exact absurd after (Nat.not_succ_le_self start)

end Slots

section Collection

variable {roots : List BlockId} {live : List Compound} {block : BlockId} {found : Block}

theorem block?_collected :
    (arena.collected roots live).block? block =
      (arena.block? block).bind fun found =>
        ((trimMarks (arena.reached roots live))[block.index]?).map
          fun mark => if mark then found else {} := by
  simp [block?, collected, getElem?_keepMarked]

/-- A collection changes no block but to empty it. -/
theorem block?_of_collected
    (kept : (arena.collected roots live).block? block = some found) :
    found = {} ∨ arena.block? block = some found := by
  rw [block?_collected] at kept
  obtain ⟨before, stored, rest⟩ := Option.bind_eq_some_iff.mp kept
  obtain ⟨mark, _, rfl⟩ := Option.map_eq_some_iff.mp rest
  cases mark with
  | true => exact .inr stored
  | false => exact .inl rfl

/-- The slots that a collection lists as free are slots that it empties. -/
theorem block?_collected_free (released : block ∈ (arena.collected roots live).free) :
    (arena.collected roots live).block? block = some {} := by
  obtain ⟨_, mark⟩ := mem_unmarkedFrom.mp released
  have within : block.index < arena.blocks.size := by
    have length : (arena.reached roots live).length = arena.slots := by
      rw [reached, length_markPending, List.length_replicate]
    rw [← slots, ← length]
    exact Nat.lt_of_lt_of_le (List.getElem?_eq_some_iff.mp mark).1 trimMarks_prefix.length_le
  rw [block?_collected, block?, Array.getElem?_eq_getElem within, Option.bind_some]
  simp only [Nat.sub_zero] at mark
  rw [mark]
  rfl

theorem block?_collected_root (stored : arena.block? block = some found) :
    (arena.collected (block :: roots) live).block? block = some found := by
  have within : block.index < arena.slots := (Array.getElem?_eq_some_iff.mp stored).1
  rw [block?_collected, stored, getElem?_trimMarks (getElem?_reached within)]
  rfl

end Collection

end TicketFlow.Arena
