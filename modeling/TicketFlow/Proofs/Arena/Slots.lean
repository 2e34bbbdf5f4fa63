import Mathlib.Data.List.Nodup
import TicketFlow.Proofs.Arena.Collect
import TicketFlow.Proofs.Data.OrderedMap
import TicketFlow.Proofs.Reduction.Combination

namespace TicketFlow

/-! Live blocks stay as they are while blocks are made.

The released slots of an arena are slots of it, each listed once.  Making a
block uses up one of them or adds one, and touches no live block; binding names
in the new block changes no other.
-/

def Block.rebind (block : Block) (bindings : Bindings) : Block :=
  { block with
    bindings := bindings.foldl (fun map binding => map.insert binding.1 binding.2)
      block.bindings }

theorem Block.rebind_cons (block : Block) (binding : String × Compound)
    (rest : Bindings) : block.rebind (binding :: rest) =
      ({ block with bindings := block.bindings.insert binding.1 binding.2 } : Block).rebind
        rest :=
  rfl

theorem Block.mem_rebind {block : Block} {bindings : Bindings}
    {entry : String × Compound} (member : entry ∈ (block.rebind bindings).bindings) :
    entry ∈ bindings ∨ entry ∈ block.bindings := by
  induction bindings generalizing block with
  | nil => exact .inr member
  | cons binding rest ih =>
      rw [Block.rebind_cons] at member
      rcases ih member with inside | inserted
      · exact .inl (List.mem_cons_of_mem _ inside)
      · rcases OrderedMap.eq_or_mem_of_mem_insert inserted with same | before
        · exact .inl (List.mem_cons.mpr (.inl same))
        · exact .inr before

/-- What a name is bound to in the end: its last new value, or what it was bound to before. -/
theorem Block.get?_rebind {block : Block} {bindings : Bindings} {name : String}
    {value : Compound} (found : (block.rebind bindings).get? name = some value) :
    (name, value) ∈ bindings ∨ name ∉ bindings.keys ∧ block.get? name = some value := by
  induction bindings generalizing block with
  | nil => exact .inr ⟨List.not_mem_nil, found⟩
  | cons binding rest ih =>
      obtain ⟨bound, given⟩ := binding
      rw [Block.rebind_cons] at found
      rcases ih found with inside | ⟨absent, here⟩
      · exact .inl (List.mem_cons_of_mem _ inside)
      · rw [Block.get?, OrderedMap.get?_insert] at here
        split at here
        next same =>
          obtain rfl : given = value := Option.some.inj here
          obtain rfl : bound = name := same
          exact .inl List.mem_cons_self
        next apart =>
            exact .inr ⟨by simpa [OrderedMap.keys, Ne.symm apart] using absent, here⟩

theorem Block.get?_rebind_of_not_mem {block : Block} {bindings : Bindings}
    {name : String} (absent : name ∉ bindings.keys) :
    (block.rebind bindings).get? name = block.get? name := by
  induction bindings generalizing block with
  | nil => rfl
  | cons binding rest ih =>
      obtain ⟨apart, later⟩ : name ≠ binding.1 ∧
          name ∉ OrderedMap.keys rest := by simpa [OrderedMap.keys] using absent
      rw [rebind_cons, ih later, get?, OrderedMap.get?_insert_of_ne (Ne.symm apart)]
      rfl

namespace Arena

/-- The slots listed as free are slots, each listed once. -/
structure Sound (arena : Arena) : Prop where
  distinct : arena.free.Nodup
  within : ∀ slot ∈ arena.free, slot.index < arena.slots

/-- The block stands in the slot, and the slot is not released. -/
def Live (arena : Arena) (slot : BlockId) (block : Block) : Prop :=
  arena.block? slot = some block ∧ slot ∉ arena.free

/-- The arena after is the one before with a block in a slot that was not in use. -/
structure Extends (before after : Arena) (fresh : BlockId) (block : Block) : Prop where
  sound : after.Sound
  live : after.Live fresh block
  unused : ∀ found, ¬before.Live fresh found
  others : ∀ slot, slot ≠ fresh → after.block? slot = before.block? slot
  free : ∀ slot ∈ after.free, slot ∈ before.free

variable {arena before after : Arena} {slot fresh : BlockId} {block found : Block}
  {name : String} {value : Compound}

theorem Extends.preserves (extends_ : before.Extends after fresh block)
    (live : before.Live slot found) : after.Live slot found := by
  have other : slot ≠ fresh := by
    rintro rfl
    exact extends_.unused found live
  exact ⟨(extends_.others slot other).trans live.1,
    fun released => live.2 (extends_.free slot released)⟩

theorem index_lt_of_block? (stored : arena.block? slot = some block) :
    slot.index < arena.slots :=
  (Array.getElem?_eq_some_iff.mp stored).1

theorem BlockId.index_ne (apart : slot ≠ fresh) : slot.index ≠ fresh.index := by
  rintro same
  exact apart (by cases slot; cases fresh; simpa using same)

section Making

theorem Sound.insert (sound : arena.Sound) (block : Block) :
    arena.Extends (arena.insert block).2 (arena.insert block).1 block := by
  unfold Arena.insert
  cases last : arena.free.getLast? with
  | none =>
      rw [List.getLast?_eq_none_iff] at last
      exact
        { sound := ⟨by simp [last], by simp [last]⟩
          live := ⟨by simp [block?, slots], by simp [last]⟩
          unused := fun found live => absurd (index_lt_of_block? live.1) (Nat.lt_irrefl _)
          others := fun slot other => by
            have apart : slot.index ≠ arena.blocks.size := BlockId.index_ne other
            simp only [block?, Array.getElem?_push, if_neg apart]
          free := fun slot => id }
  | some slot =>
      have split : arena.free = arena.free.dropLast ++ [slot] :=
        (List.dropLast_append_getLast? slot last).symm
      have among : slot ∈ arena.free := by
        rw [split]
        simp
      have distinct := sound.distinct
      rw [split, List.nodup_append] at distinct
      have within : slot.index < arena.blocks.size := sound.within slot among
      exact
        { sound :=
            { distinct := distinct.1
              within := fun other member => by
                simpa [slots] using sound.within other (arena.free.dropLast_subset member) }
          live :=
            ⟨by simp [block?, Array.getElem?_setIfInBounds_self_of_lt within],
              fun member => distinct.2.2 slot member slot List.mem_cons_self rfl⟩
          unused := fun found live => live.2 among
          others := fun other apart => by
            have apart : slot.index ≠ other.index := Ne.symm (BlockId.index_ne apart)
            simp only [block?, Array.getElem?_setIfInBounds_ne apart]
          free := fun other member => arena.free.dropLast_subset member }

/-- While there is room, every block has a number of its own below the limit. -/
theorem Sound.index_insert_lt (sound : arena.Sound) (room : arena.slots < BlockId.limit)
    (block : Block) : (arena.insert block).1.index < BlockId.limit := by
  unfold Arena.insert
  cases last : arena.free.getLast? with
  | none => exact room
  | some slot => exact Nat.lt_trans (sound.within slot (List.mem_of_getLast? last)) room

theorem Sound.cloneBlock (sound : arena.Sound)
    (cloned : arena.cloneBlock slot = .ok (fresh, after)) :
    ∃ block, arena.block? slot = some block ∧ arena.Extends after fresh block := by
  unfold Arena.cloneBlock get at cloned
  cases stored : arena.block? slot with
  | none => simp [stored, Except.map] at cloned
  | some block =>
      simp only [stored, Except.map, Except.ok.injEq] at cloned
      have extends_ := sound.insert block
      rw [cloned] at extends_
      exact ⟨block, rfl, extends_⟩

theorem Sound.alloc {parent : Option BlockId} (sound : arena.Sound)
    (made : arena.alloc parent = .ok (fresh, after)) :
    arena.Extends after fresh { parent } := by
  unfold Arena.alloc at made
  cases parent with
  | none =>
      have extends_ := sound.insert {}
      rw [Except.ok.inj made] at extends_
      exact extends_
  | some above =>
      simp only at made
      split at made
      · have extends_ := sound.insert { parent := some above }
        rw [Except.ok.inj made] at extends_
        exact extends_
      · simp at made

theorem Sound.of_cloneBlock (sound : arena.Sound)
    (cloned : arena.cloneBlock slot = .ok (fresh, after)) : after.Sound := by
  obtain ⟨_, _, extends_⟩ := sound.cloneBlock cloned
  exact extends_.sound

theorem Sound.of_alloc {parent : Option BlockId} (sound : arena.Sound)
    (made : arena.alloc parent = .ok (fresh, after)) :
    after.Sound :=
  (sound.alloc made).sound

end Making

section Binding

theorem get_ok (stored : arena.block? slot = some block) :
    arena.get slot = .ok block := by
  rw [get, stored]

/-- A block in use can be copied. -/
theorem cloneBlock_of_block? (stored : arena.block? slot = some block) :
    arena.cloneBlock slot = .ok (arena.insert block) := by
  rw [cloneBlock, get_ok stored]
  rfl

/-- A block can be made below a block in use. -/
theorem alloc_of_block? (stored : arena.block? slot = some block) :
    arena.alloc (some slot) = .ok (arena.insert { parent := some slot }) := by
  simp [alloc, index_lt_of_block? stored]

theorem Extends.bind (extends_ : before.Extends after fresh block)
    (name : String) (value : Compound) :
    ∃ previous final, after.bind fresh name value = .ok (previous, final) ∧
      before.Extends final fresh
        { block with bindings := block.bindings.insert name value } := by
  have within := index_lt_of_block? extends_.live.1
  refine ⟨_, _, by rw [Arena.bind, get_ok extends_.live.1]; rfl, ?_⟩
  exact
    { sound := ⟨extends_.sound.distinct, fun slot member => by
        simpa [slots] using extends_.sound.within slot member⟩
      live := ⟨by simp [block?, Array.getElem?_setIfInBounds_self_of_lt within],
        extends_.live.2⟩
      unused := extends_.unused
      others := fun slot apart => by
        have distinct : fresh.index ≠ slot.index := Ne.symm (BlockId.index_ne apart)
        rw [← extends_.others slot apart]
        simp only [block?, Array.getElem?_setIfInBounds_ne distinct]
      free := extends_.free }

/-- Binding names in the new block never fails. -/
theorem Extends.bindAll (extends_ : before.Extends after fresh block)
    (bindings : Bindings) :
    ∃ final, after.bindAll fresh bindings = .ok final ∧
      before.Extends final fresh (block.rebind bindings) := by
  induction bindings generalizing after block with
  | nil => exact ⟨after, rfl, extends_⟩
  | cons binding rest ih =>
      obtain ⟨name, value⟩ := binding
      obtain ⟨previous, next, bound, extended⟩ := extends_.bind name value
      obtain ⟨final, rebound, whole⟩ := ih extended
      exact ⟨final, by rw [Arena.bindAll, bound]; exact rebound, whole⟩

end Binding

section Looking

theorem lookupWithin_ok {steps : Nat}
    (found : arena.lookupWithin name steps slot = .ok (some value)) :
    ∃ slot block, arena.block? slot = some block ∧ block.get? name = some value := by
  induction steps generalizing slot with
  | zero => simp [lookupWithin] at found
  | succ steps ih =>
      simp only [lookupWithin, get] at found
      cases stored : arena.block? slot with
      | none => simp [stored] at found
      | some block =>
          simp only [stored] at found
          cases bound : block.get? name with
          | some here =>
              simp only [bound, Except.ok.injEq, Option.some.injEq] at found
              exact ⟨slot, block, stored, found ▸ bound⟩
          | none =>
              simp only [bound] at found
              split at found
              · exact ih found
              · simp at found

/-- What a name is bound to is bound in some block. -/
theorem lookup_ok (found : arena.lookup slot name = .ok (some value)) :
    ∃ slot block, arena.block? slot = some block ∧ block.get? name = some value := by
  unfold lookup at found
  split at found
  · simp at found
  · exact lookupWithin_ok found

theorem getLocal_ok (found : arena.getLocal slot name = .ok (some value)) :
    ∃ slot block, arena.block? slot = some block ∧ block.get? name = some value := by
  unfold getLocal get at found
  cases stored : arena.block? slot with
  | none => simp [stored, Except.map] at found
  | some block =>
      simp only [stored, Except.map, Except.ok.injEq] at found
      exact ⟨slot, block, stored, found⟩

end Looking

/-- A collection leaves a sound arena, whatever was there before. -/
theorem sound_collected (arena : Arena) (roots : List BlockId) (live : List Compound) :
    (arena.collected roots live).Sound where
  distinct := nodup_unmarkedFrom
  within _ released := index_lt_of_block? (block?_collected_free released)

theorem Sound.bind {previous : Option Compound} (sound : arena.Sound)
    (bound : arena.bind slot name value = .ok (previous, after)) : after.Sound := by
  unfold Arena.bind get at bound
  cases stored : arena.block? slot with
  | none => simp [stored, Except.map] at bound
  | some block =>
      simp only [stored, Except.map, Except.ok.injEq, Prod.mk.injEq] at bound
      obtain ⟨_, rfl⟩ := bound
      refine ⟨sound.distinct, fun other released => ?_⟩
      simpa [slots] using sound.within other released

theorem Sound.bindAll {bindings : Bindings} (sound : arena.Sound)
    (bound : arena.bindAll slot bindings = .ok after) : after.Sound := by
  induction bindings generalizing arena with
  | nil => exact Except.ok.inj bound ▸ sound
  | cons binding rest ih =>
      unfold Arena.bindAll at bound
      split at bound
      next previous next first => exact ih (sound.bind first) bound
      next => simp at bound

/-- A sound arena in which every bound term is good. -/
structure Binds (arena : Arena) (good : Term → Prop) : Prop extends Sound arena where
  bound :
    ∀ {slot block term}, arena.block? slot = some block →
    BoundIn block.bindings term → good term

end Arena

end TicketFlow
