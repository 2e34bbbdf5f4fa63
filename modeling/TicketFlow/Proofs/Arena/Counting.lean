import Mathlib.Data.Finset.Card
import Mathlib.Data.Finset.Image
import TicketFlow.Proofs.Arena.Ancestry

namespace TicketFlow.Arena

/-! What the number that a collection hands back says.

The size of an arena is the number of its slots in use, and a collection hands
back the difference of two sizes.  A released slot that can still be reached is
taken back into use: then the difference is smaller than the number of slots
that were released, or even below zero.
-/

/-- The slots in use. -/
def inUse (arena : Arena) : Finset BlockId :=
  ((Finset.range arena.slots).image BlockId.mk) \ arena.free.toFinset

/-- The slots that the collection released. -/
def lost (before after : Arena) : Finset BlockId :=
  before.inUse \ after.inUse

/-- The released slots that the collection took back into use. -/
def regained (before after : Arena) : Finset BlockId :=
  after.inUse \ before.inUse

variable {arena before after : Arena} {calls : List Call} {roots : List BlockId}
  {live : List Compound} {slot : BlockId}

section Sizes

theorem mem_inUse :
    slot ∈ arena.inUse ↔ slot.index < arena.slots ∧ slot ∉ arena.free := by
  rw [inUse, Finset.mem_sdiff, List.mem_toFinset, Finset.mem_image]
  refine and_congr_left fun _ =>
    ⟨?_, fun within => ⟨slot.index, Finset.mem_range.mpr within, rfl⟩⟩
  rintro ⟨index, among, rfl⟩
  exact Finset.mem_range.mp among

theorem mem_inUse_iff_live : slot ∈ arena.inUse ↔ ∃ block, arena.Live slot block := by
  rw [mem_inUse]
  constructor
  · rintro ⟨within, unreleased⟩
    obtain ⟨block, stored⟩ := block?_of_lt within
    exact ⟨block, stored, unreleased⟩
  · rintro ⟨block, stored, unreleased⟩
    exact ⟨index_lt_of_block? stored, unreleased⟩

/-- The size of an arena counts its slots in use. -/
theorem Sound.card_inUse (sound : arena.Sound) : arena.inUse.card = arena.size := by
  have within : arena.free.toFinset ⊆ (Finset.range arena.slots).image BlockId.mk := by
    intro slot released
    have inside := sound.within slot (List.mem_toFinset.mp released)
    exact Finset.mem_image.mpr ⟨slot.index, Finset.mem_range.mpr inside, rfl⟩
  have slots : ((Finset.range arena.slots).image BlockId.mk).card = arena.slots := by
    rw [Finset.card_image_of_injective _ fun _ _ same => congrArg BlockId.index same,
      Finset.card_range]
  rw [inUse, Finset.card_sdiff_of_subset within, slots,
    List.toFinset_card_of_nodup sound.distinct, size]

theorem sound_of_answerAll (answered : empty.answerAll calls = .ok arena) :
    arena.Sound := by
  have blank : empty.Sound := ⟨List.nodup_nil, by simp [empty]⟩
  exact (comes_iff.mpr ⟨calls, (List.append_nil _).symm, answered⟩).sound blank

end Sizes

section Collection

/-- What is in use after a collection is what can be reached, released before or not. -/
theorem mem_inUse_collected :
    slot ∈ (arena.collected roots live).inUse ↔
      slot.index < arena.slots ∧ arena.Reachable roots live slot := by
  simp only [mem_inUse_iff_live, live_collected_iff, exists_and_right]
  exact and_congr_left fun _ => ⟨fun ⟨_, stored⟩ => index_lt_of_block? stored, block?_of_lt⟩

theorem mem_regained (sound : arena.Sound) :
    slot ∈ arena.regained (arena.collected roots live) ↔
      slot ∈ arena.free ∧ arena.Reachable roots live slot := by
  rw [regained, Finset.mem_sdiff, mem_inUse_collected, mem_inUse]
  constructor
  · rintro ⟨⟨within, reachable⟩, unused⟩
    exact ⟨by_contra fun unreleased => unused ⟨within, unreleased⟩, reachable⟩
  · rintro ⟨released, reachable⟩
    exact ⟨⟨sound.within slot released, reachable⟩, fun used => used.2 released⟩

/-- What was in use and what came back into use is what is in use now
and what was released. -/
theorem size_add_regained (sound : before.Sound) (still : after.Sound) :
    before.size + (before.regained after).card = after.size + (before.lost after).card := by
  have exchanged := Finset.card_sdiff_add_card before.inUse after.inUse
  have back := Finset.card_sdiff_add_card after.inUse before.inUse
  rw [Finset.union_comm] at back
  rw [← sound.card_inUse, ← still.card_inUse, regained, lost]
  omega

theorem regained_eq_empty_iff (sound : arena.Sound) :
    arena.regained (arena.collected roots live) = ∅ ↔
      ∀ slot ∈ arena.free, ¬arena.Reachable roots live slot := by
  simp only [Finset.eq_empty_iff_forall_notMem, mem_regained sound, not_and]

/-- The number that a collection hands back is the number of slots that it released
exactly if it takes none back into use; the difference is below zero, and wraps, exactly
if it takes back more than it releases. -/
theorem counts_lost_iff {number : Nat} (answered : empty.answerAll calls = .ok arena)
    (collected : arena.collect roots live = (number, after)) :
    (arena.size = arena.inUse.card ∧ after.size = after.inUse.card) ∧
    (number = (arena.lost after).card ∧ after.size ≤ arena.size ↔
      ∀ slot ∈ arena.free, ¬arena.Reachable roots live slot) ∧
    (after.size ≤ arena.size ↔ (arena.regained after).card ≤ (arena.lost after).card) ∧
    number = sizeLess (arena.lost after).card (arena.regained after).card := by
  obtain ⟨rfl, rfl⟩ := Prod.mk.inj collected
  have sound := sound_of_answerAll answered
  have still := sound_collected arena roots live
  -- All of it is read off this equation: the number is one size less the other.
  have ledger := size_add_regained sound still
  have none_back : (arena.regained (arena.collected roots live)).card = 0 ↔
      ∀ slot ∈ arena.free, ¬arena.Reachable roots live slot := by
    rw [Finset.card_eq_zero, regained_eq_empty_iff sound]
  refine ⟨⟨sound.card_inUse.symm, still.card_inUse.symm⟩, ?_, by omega, ?_⟩
  · rw [← none_back, sizeLess]
    split <;> omega
  · simp only [sizeLess]
    split <;> split <;> omega

/-- A slot that was released before is not taken back where nothing refers to it. -/
theorem counts_lost_again : ∃ arena after,
    empty.answerAll [.alloc none, .alloc (some ⟨0⟩), .alloc none, .collect [⟨0⟩, ⟨2⟩] []] =
      .ok arena ∧ arena.collect [⟨2⟩] [] = (1, after) ∧ arena.lost after = {⟨0⟩} ∧
      ∀ slot ∈ arena.free, ¬arena.Reachable [⟨2⟩] [] slot := by
  have answered :
      empty.answerAll [.alloc none, .alloc (some ⟨0⟩), .alloc none,
        .collect [⟨0⟩, ⟨2⟩] []] = .ok _ := rfl
  refine ⟨_, _, answered, rfl, by decide, ?_⟩
  exact (counts_lost_iff answered rfl).2.1.mp ⟨by decide, by decide⟩

/-- A collection from a released slot hands back one for the two slots that it releases,
and the greatest number of all if it releases none. -/
theorem collect_miscounts : ∃ arena after more,
    empty.answerAll [.alloc none, .alloc none, .alloc none, .collect [⟨0⟩, ⟨2⟩] []] =
      .ok arena ∧ arena.collect [⟨1⟩] [] = (1, after) ∧ arena.lost after = {⟨0⟩, ⟨2⟩} ∧
      arena.collect [⟨0⟩, ⟨1⟩, ⟨2⟩] [] = (UInt64.size - 1, more) ∧ arena.lost more = ∅ ∧
      arena.size < more.size :=
  ⟨_, _, _, rfl, rfl, by decide, rfl, by decide, by decide⟩

end Collection

end TicketFlow.Arena
