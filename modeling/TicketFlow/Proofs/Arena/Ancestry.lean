import Mathlib.Data.Fintype.EquivFin
import TicketFlow.Proofs.Arena.Retention

namespace TicketFlow.Arena

/-! Chains of parents, over any sequence of calls.

A block is put below a block that was there before it, but in a slot that may
have been in use before.  So the chains of parents end as long as no block is
put into a slot that the chain above it leads through; and it never is if every
parent that is asked for is in use.  A released slot will do as a parent too,
and then its new block may come to stand above itself.
-/

inductive Call where
  | alloc (parent : Option BlockId)
  | clone (block : BlockId)
  | bind (block : BlockId) (name : String) (value : Compound)
  | collect (roots : List BlockId) (live : List Compound)

def answer (arena : Arena) : Call → Except Fault Arena
  | .alloc parent => (arena.alloc parent).map Prod.snd
  | .clone block => (arena.cloneBlock block).map Prod.snd
  | .bind block name value => (arena.bind block name value).map Prod.snd
  | .collect roots live => .ok (arena.collect roots live).2

/-- The arena after the calls, if none of them is a fault. -/
def answerAll (arena : Arena) : List Call → Except Fault Arena
  | [] => .ok arena
  | call :: rest =>
      match arena.answer call with
      | .ok next => next.answerAll rest
      | .error fault => .error fault

/-- The blocks above the slot, from its parent on to one that has none. -/
inductive Ancestry (arena : Arena) : BlockId → List BlockId → Prop where
  | top {slot : BlockId} {block : Block} :
      arena.block? slot = some block → block.parent = none → Ancestry arena slot []
  | under {slot above : BlockId} {block : Block} {path : List BlockId} :
      arena.block? slot = some block → block.parent = some above →
      Ancestry arena above path → Ancestry arena slot (above :: path)

/-- From every slot, released or not, the parents lead to a block without one. -/
def Ends (arena : Arena) : Prop :=
  ∀ slot : BlockId, slot.index < arena.slots → ∃ path, arena.Ancestry slot path

/-- No block has a released slot for a parent. -/
def Attached (arena : Arena) : Prop :=
  ∀ slot block above, arena.block? slot = some block → block.parent = some above →
    above ∉ arena.free

/-- The slot that the next block is put into. -/
def nextSlot (arena : Arena) : BlockId :=
  arena.free.getLast?.getD ⟨arena.slots⟩

/-- The parent of the block that the call makes. -/
def parentOf? (arena : Arena) : Call → Option BlockId
  | .alloc parent => parent
  | .clone block => (arena.block? block).bind Block.parent
  | .bind .. | .collect .. => none

/-- The call puts a block into a slot that its own parents lead through. -/
def Loops (arena : Arena) (call : Call) : Prop :=
  ∃ above, arena.parentOf? call = some above ∧
    (above = arena.nextSlot ∨ ∃ path, arena.Ancestry above path ∧ arena.nextSlot ∈ path)

/-- The calls lead from the first arena to the second, which has the rest of them to come. -/
inductive Comes (start : Arena) (calls : List Call) : Arena → List Call → Prop where
  | start : Comes start calls start calls
  | next {arena after : Arena} {call : Call} {rest : List Call} :
      Comes start calls arena (call :: rest) → arena.answer call = .ok after →
      Comes start calls after rest

variable {arena after : Arena} {call : Call} {calls : List Call}
  {slot other above : BlockId} {block : Block} {path others : List BlockId}

section Chains

theorem Ancestry.unique (ancestry : arena.Ancestry slot path)
    (again : arena.Ancestry slot others) : others = path := by
  induction ancestry generalizing others with
  | top stored parentless => cases again <;> simp_all
  | under stored parent _ ih =>
      cases again with
      | top stored' parentless => simp_all
      | under stored' parent' further =>
          obtain rfl := Option.some.inj (stored.symm.trans stored')
          obtain rfl := Option.some.inj (parent.symm.trans parent')
          rw [ih further]

theorem Ancestry.onward (ancestry : arena.Ancestry slot path) (among : other ∈ path) :
    ∃ rest, arena.Ancestry other rest ∧ rest.length < path.length := by
  induction ancestry with
  | top => simp at among
  | under _ _ further ih =>
      rcases List.mem_cons.mp among with rfl | later
      · exact ⟨_, further, Nat.lt_succ_self _⟩
      · obtain ⟨rest, onward, fewer⟩ := ih later
        exact ⟨rest, onward, Nat.lt_succ_of_lt fewer⟩

/-- No block stands above itself. -/
theorem Ancestry.not_mem (ancestry : arena.Ancestry slot path) : slot ∉ path := by
  intro among
  obtain ⟨rest, again, fewer⟩ := ancestry.onward among
  exact absurd (ancestry.unique again ▸ fewer) (Nat.lt_irrefl _)

theorem Ancestry.within (ancestry : arena.Ancestry slot path) :
    slot.index < arena.slots := by
  cases ancestry with
  | top stored _ => exact index_lt_of_block? stored
  | under stored _ _ => exact index_lt_of_block? stored

/-- A chain of blocks that still have the parents that they had is still there. -/
theorem Ancestry.kept (ancestry : arena.Ancestry slot path)
    (kept : ∀ {visited}, visited ∈ slot :: path → ∀ {block}, arena.block? visited = some
      block → ∃ found, after.block? visited = some found ∧ found.parent = block.parent) :
    after.Ancestry slot path := by
  induction ancestry with
  | top stored parentless =>
      obtain ⟨found, still, parent⟩ := kept List.mem_cons_self stored
      exact .top still (parent.trans parentless)
  | under stored parent _ ih =>
      obtain ⟨found, still, same⟩ := kept List.mem_cons_self stored
      exact .under still (same.trans parent)
        (ih fun among => kept (List.mem_cons_of_mem _ among))

/-- Up to a slot that was written to, a chain is what it was; so it ends if
that of this slot does. -/
theorem Ancestry.rewritten (ancestry : arena.Ancestry slot path)
    (others : ∀ {visited}, visited ≠ other → ∀ {block}, arena.block? visited = some block →
      ∃ found, after.block? visited = some found ∧ found.parent = block.parent)
    (written : ∃ path, after.Ancestry other path) : ∃ path, after.Ancestry slot path := by
  induction ancestry with
  | @top slot block stored parentless =>
      by_cases same : slot = other
      · exact same ▸ written
      · obtain ⟨found, still, parent⟩ := others same stored
        exact ⟨_, .top still (parent.trans parentless)⟩
  | @under slot _ block _ stored parent _ ih =>
      by_cases same : slot = other
      · exact same ▸ written
      · obtain ⟨found, still, kept⟩ := others same stored
        obtain ⟨path, further⟩ := ih
        exact ⟨_, .under still (kept.trans parent) further⟩

/-- Where the parents end, so does every search. -/
theorem Ancestry.finds (ancestry : arena.Ancestry slot path) (name : String) :
    ∃ path found, arena.Finds name slot path found := by
  induction ancestry with
  | top stored parentless =>
      rename_i block
      cases bound : block.get? name with
      | some value => exact ⟨_, _, .here stored bound⟩
      | none => exact ⟨_, _, .nowhere stored bound parentless⟩
  | under stored parent _ ih =>
      rename_i block _ _
      cases bound : block.get? name with
      | some value => exact ⟨_, _, .here stored bound⟩
      | none =>
          obtain ⟨path, found, finds⟩ := ih
          exact ⟨_, _, .above stored bound parent finds⟩

theorem Ancestry.reachable {roots : List BlockId} {live : List Compound}
    (ancestry : arena.Ancestry slot path) (reachable : arena.Reachable roots live slot)
    (among : other ∈ slot :: path) : arena.Reachable roots live other := by
  induction ancestry with
  | top => exact List.mem_singleton.mp among ▸ reachable
  | under stored parent _ ih =>
      rcases List.mem_cons.mp among with rfl | later
      · exact reachable
      · exact ih (.parent reachable stored parent) later

theorem Finds.ancestry {name : String} {found : Option Compound}
    (finds : arena.Finds name slot path found)
    (nowhere : ∀ {slot block}, arena.block? slot = some block → block.get? name = none) :
    ∃ path, arena.Ancestry slot path := by
  induction finds with
  | here stored bound => simp [nowhere stored] at bound
  | nowhere stored _ parentless => exact ⟨_, .top stored parentless⟩
  | above stored _ parent _ ih =>
      obtain ⟨path, ancestry⟩ := ih
      exact ⟨_, .under stored parent ancestry⟩

theorem exists_unbound (arena : Arena) :
    ∃ name, ∀ {slot block}, arena.block? slot = some block → block.get? name = none := by
  obtain ⟨name, unbound⟩ := Infinite.exists_notMem_finset
    (arena.blocks.toList.flatMap fun block => block.bindings.keys).toFinset
  refine ⟨name, fun {slot block} stored => ?_⟩
  have listed : block ∈ arena.blocks.toList :=
    Array.mem_toList_iff.mpr (Array.mem_of_getElem? stored)
  refine Option.eq_none_iff_forall_ne_some.mpr fun value bound => unbound ?_
  have key : name ∈ block.bindings.keys :=
    List.mem_map.mpr ⟨_, OrderedMap.mem_of_get? bound, rfl⟩
  exact List.mem_toFinset.mpr (List.mem_flatMap.mpr ⟨block, listed, key⟩)

/-- Every look-up is answered exactly if the parents end: one that finds nothing
follows them to the last. -/
theorem ends_iff_lookup : arena.Ends ↔
    ∀ slot : BlockId, slot.index < arena.slots →
      ∀ name, ∃ found, arena.lookup slot name = .ok found := by
  constructor
  · intro ends slot within name
    obtain ⟨path, ancestry⟩ := ends slot within
    obtain ⟨visited, found, finds⟩ := ancestry.finds name
    exact ⟨found, lookup_ok_iff.mpr ⟨visited, finds⟩⟩
  · intro answers slot within
    obtain ⟨name, nowhere⟩ := arena.exists_unbound
    obtain ⟨found, read⟩ := answers slot within name
    obtain ⟨path, finds⟩ := lookup_ok_iff.mp read
    exact finds.ancestry nowhere

end Chains

section Steps

theorem insert_fst (block : Block) : (arena.insert block).1 = arena.nextSlot := by
  unfold insert nextSlot
  cases arena.free.getLast? <;> rfl

theorem alloc_ok {parent : Option BlockId} {made : BlockId × Arena}
    (allocated : arena.alloc parent = .ok made) :
    made = arena.insert { parent } ∧ ∀ above ∈ parent, above.index < arena.slots := by
  unfold alloc at allocated
  cases parent with
  | none => exact ⟨(Except.ok.inj allocated).symm, by simp⟩
  | some above =>
      simp only at allocated
      split at allocated
      next within => exact ⟨(Except.ok.inj allocated).symm, by simpa using within⟩
      next => simp at allocated

theorem cloneBlock_ok {made : BlockId × Arena}
    (cloned : arena.cloneBlock slot = .ok made) :
    ∃ block, arena.block? slot = some block ∧ made = arena.insert block := by
  unfold cloneBlock get at cloned
  cases stored : arena.block? slot with
  | none => simp [stored, Except.map] at cloned
  | some block => exact ⟨block, rfl, by simpa [stored, Except.map] using cloned.symm⟩

theorem bind_parents {name : String} {value : Compound} {previous : Option Compound}
    (bound : arena.bind slot name value = .ok (previous, after)) :
    after.slots = arena.slots ∧ ∀ {visited block}, arena.block? visited = some block →
      ∃ found, after.block? visited = some found ∧ found.parent = block.parent := by
  unfold Arena.bind get at bound
  cases stored : arena.block? slot with
  | none => simp [stored, Except.map] at bound
  | some block =>
      simp only [stored, Except.map, Except.ok.injEq, Prod.mk.injEq] at bound
      obtain ⟨_, rfl⟩ := bound
      refine ⟨by simp [slots], fun {visited found} here => ?_⟩
      by_cases same : visited = slot
      · obtain rfl := Option.some.inj (stored.symm.trans (same ▸ here))
        refine ⟨{ block with bindings := block.bindings.insert name value }, ?_, rfl⟩
        rw [same, block?,
          Array.getElem?_setIfInBounds_self_of_lt (index_lt_of_block? stored)]
      · have apart : slot.index ≠ visited.index := Ne.symm (BlockId.index_ne same)
        exact ⟨found,
          by simpa only [block?, Array.getElem?_setIfInBounds_ne apart] using here, rfl⟩

/-- A chain that led through a slot that is now in use still comes to it. -/
theorem Extends.through {fresh : BlockId} (extends_ : arena.Extends after fresh block)
    (ancestry : arena.Ancestry slot path) (among : fresh ∈ path)
    (again : after.Ancestry slot others) : fresh ∈ slot :: others := by
  induction ancestry generalizing others with
  | top => simp at among
  | @under slot above found _ stored parent _ ih =>
      by_cases same : slot = fresh
      · exact same ▸ List.mem_cons_self
      have still : after.block? slot = some found :=
        (extends_.others slot same).trans stored
      cases again with
      | top stored' parentless => simp_all
      | under stored' parent' further =>
          obtain rfl := Option.some.inj (still.symm.trans stored')
          obtain rfl := Option.some.inj (parent.symm.trans parent')
          refine List.mem_cons_of_mem _ ?_
          rcases List.mem_cons.mp among with rfl | later
          · exact List.mem_cons_self
          · exact ih later further

/-- A new block leaves a way to the end for all, unless its own parents lead to it. -/
theorem Extends.ends_iff {fresh : BlockId}
    (extends_ : arena.Extends after fresh block) (ends : arena.Ends)
    (within : ∀ above ∈ block.parent, above.index < arena.slots) : after.Ends ↔
      ¬∃ above, block.parent = some above ∧
        (above = fresh ∨ ∃ path, arena.Ancestry above path ∧ fresh ∈ path) := by
  constructor
  · rintro still ⟨above, parent, loops⟩
    obtain ⟨path, ancestry⟩ := still fresh (index_lt_of_block? extends_.live.1)
    refine ancestry.not_mem ?_
    cases ancestry with
    | top stored parentless =>
        obtain rfl := Option.some.inj (extends_.live.1.symm.trans stored)
        simp [parent] at parentless
    | under stored parent' further =>
        obtain rfl := Option.some.inj (extends_.live.1.symm.trans stored)
        obtain rfl := Option.some.inj (parent.symm.trans parent')
        rcases loops with rfl | ⟨path, ancestry, among⟩
        · exact List.mem_cons_self
        · exact extends_.through ancestry among further
  · intro straight
    have others {visited : BlockId} (apart : visited ≠ fresh) {found : Block}
        (stored : arena.block? visited = some found) :
        ∃ found', after.block? visited = some found' ∧ found'.parent = found.parent :=
      ⟨found, (extends_.others visited apart).trans stored, rfl⟩
    have ours : ∃ path, after.Ancestry fresh path := by
      cases parent : block.parent with
      | none => exact ⟨_, .top extends_.live.1 parent⟩
      | some above =>
          obtain ⟨path, ancestry⟩ := ends above (within above parent)
          have aside : fresh ∉ above :: path := by
            intro among
            refine straight ⟨above, parent, ?_⟩
            rcases List.mem_cons.mp among with rfl | later
            · exact .inl rfl
            · exact .inr ⟨path, ancestry, later⟩
          exact ⟨_, .under extends_.live.1 parent
            (ancestry.kept fun visited => others fun same => aside (same ▸ visited))⟩
    intro slot inside
    by_cases same : slot = fresh
    · exact same ▸ ours
    obtain ⟨found, stored⟩ := block?_of_lt inside
    have within := index_lt_of_block? ((extends_.others slot same).symm.trans stored)
    obtain ⟨path, ancestry⟩ := ends slot within
    exact ancestry.rewritten others ours

/-- What a slot holds after a collection: nothing, or what it held before,
as it can be reached. -/
theorem block?_of_collected_some {roots : List BlockId} {live : List Compound}
    (stored : (arena.collected roots live).block? slot = some block) :
    block = {} ∨ arena.block? slot = some block ∧ arena.Reachable roots live slot := by
  rw [block?_collected] at stored
  obtain ⟨before, here, rest⟩ := Option.bind_eq_some_iff.mp stored
  obtain ⟨mark, set, rfl⟩ := Option.map_eq_some_iff.mp rest
  cases mark with
  | false => exact .inl rfl
  | true => exact .inr ⟨here, (reached_iff.mp (getElem?_of_trimMarks set)).2⟩

theorem Ends.collected (ends : arena.Ends) (roots : List BlockId) (live : List Compound) :
    (arena.collected roots live).Ends := by
  intro slot within
  obtain ⟨block, stored⟩ := block?_of_lt within
  rcases block?_of_collected_some stored with rfl | ⟨here, reachable⟩
  · exact ⟨[], .top stored rfl⟩
  · obtain ⟨path, ancestry⟩ := ends slot (index_lt_of_block? here)
    refine ⟨path, ancestry.kept fun visited found stands => ⟨found, ?_, rfl⟩⟩
    exact (block?_collected_of_reachable (ancestry.reachable reachable visited)).trans stands

theorem Ends.within (ends : arena.Ends) (stored : arena.block? slot = some block)
    (parent : block.parent = some above) : above.index < arena.slots := by
  obtain ⟨path, ancestry⟩ := ends slot (index_lt_of_block? stored)
  cases ancestry with
  | top stored' parentless => simp_all
  | under stored' parent' further =>
      obtain rfl := Option.some.inj (stored.symm.trans stored')
      obtain rfl := Option.some.inj (parent.symm.trans parent')
      exact further.within

theorem of_map_snd {α : Type} {result : Except Fault (α × Arena)}
    (answered : result.map Prod.snd = .ok after) :
    ∃ first, result = .ok (first, after) := by
  cases result with
  | error => simp [Except.map] at answered
  | ok made =>
      exact ⟨made.1,
        by simpa [Except.map] using congrArg (fun snd => (made.1, snd)) (Except.ok.inj
        answered)⟩

theorem Sound.answer (sound : arena.Sound) (answered : arena.answer call = .ok after) :
    after.Sound := by
  cases call with
  | alloc parent =>
      obtain ⟨fresh, allocated⟩ := of_map_snd answered
      exact sound.of_alloc allocated
  | clone source =>
      obtain ⟨fresh, cloned⟩ := of_map_snd answered
      exact sound.of_cloneBlock cloned
  | bind slot name value =>
      obtain ⟨previous, bound⟩ := of_map_snd answered
      exact sound.bind bound
  | collect roots live => exact Except.ok.inj answered ▸ sound_collected arena roots live

/-- One call: the parents still end, unless the call puts a block into a slot that its own
parents lead through. -/
theorem Ends.answer_iff (ends : arena.Ends) (sound : arena.Sound)
    (answered : arena.answer call = .ok after) : after.Ends ↔ ¬arena.Loops call := by
  cases call with
  | alloc parent =>
      obtain ⟨fresh, allocated⟩ := of_map_snd answered
      obtain ⟨made, within⟩ := alloc_ok allocated
      have extends_ := sound.insert { parent := parent }
      rw [← made, show fresh = arena.nextSlot from
        (congrArg Prod.fst made).trans (insert_fst _)] at extends_
      exact extends_.ends_iff ends within
  | clone source =>
      obtain ⟨fresh, cloned⟩ := of_map_snd answered
      obtain ⟨block, stored, made⟩ := cloneBlock_ok cloned
      have extends_ := sound.insert block
      rw [← made, show fresh = arena.nextSlot from
        (congrArg Prod.fst made).trans (insert_fst _)] at extends_
      rw [extends_.ends_iff ends fun above => ends.within stored, Loops, parentOf?,
        stored, Option.bind_some]
  | bind slot name value =>
      obtain ⟨previous, bound⟩ := of_map_snd answered
      obtain ⟨same, kept⟩ := bind_parents bound
      refine iff_of_true (fun visited within => ?_)
        fun ⟨_, parent, _⟩ => by simp [parentOf?] at parent
      obtain ⟨path, ancestry⟩ := ends visited (same ▸ within)
      exact ⟨path, ancestry.kept fun _ => kept⟩
  | collect roots live =>
      obtain rfl : arena.collected roots live = after := Except.ok.inj answered
      exact iff_of_true (ends.collected roots live)
        fun ⟨_, parent, _⟩ => by simp [parentOf?] at parent

/-- One call: no block has a released parent, unless one is asked for. -/
theorem Attached.answer (attached : arena.Attached) (sound : arena.Sound)
    (ends : arena.Ends) (given : ∀ above, call = .alloc (some above) → above ∉ arena.free)
    (answered : arena.answer call = .ok after) : after.Attached := by
  have made {fresh : BlockId} {block : Block} (extends_ : arena.Extends after fresh block)
      (inUse : ∀ above ∈ block.parent, above ∉ arena.free) : after.Attached := by
    intro slot found above stored parent released
    by_cases same : slot = fresh
    · obtain rfl := Option.some.inj (extends_.live.1.symm.trans (same ▸ stored))
      exact inUse above parent (extends_.free above released)
    · exact attached _ _ _ ((extends_.others slot same).symm.trans stored) parent
        (extends_.free above released)
  cases call with
  | alloc parent =>
      obtain ⟨fresh, allocated⟩ := of_map_snd answered
      exact made (sound.alloc allocated) fun above parent' =>
        given above (by rw [show parent = some above from parent'])
  | clone source =>
      obtain ⟨fresh, cloned⟩ := of_map_snd answered
      obtain ⟨block, stored, extends_⟩ := sound.cloneBlock cloned
      exact made extends_ fun above => attached _ _ above stored
  | bind slot name value =>
      obtain ⟨previous, bound⟩ := of_map_snd answered
      intro visited found above stored parent
      obtain ⟨block, before⟩ :=
        block?_of_lt ((bind_parents bound).1 ▸ index_lt_of_block? stored)
      obtain ⟨still, here, same⟩ := (bind_parents bound).2 before
      obtain rfl := Option.some.inj (stored.symm.trans here)
      exact (bind_others bound).1 ▸ attached _ _ _ before (same.symm.trans parent)
  | collect roots live =>
      obtain rfl : arena.collected roots live = after := Except.ok.inj answered
      intro slot found above stored parent released
      rcases block?_of_collected_some stored with rfl | ⟨here, reachable⟩
      · simp at parent
      · obtain ⟨kept, stands⟩ := block?_of_lt (ends.within here parent)
        exact (live_collected_iff.mpr ⟨stands, .parent reachable here parent⟩).2 released

theorem Attached.straight (attached : arena.Attached) (ends : arena.Ends)
    (given : ∀ above, call = .alloc (some above) → above ∉ arena.free)
    (answered : arena.answer call = .ok after) : ¬arena.Loops call := by
  have apart {above : BlockId} (within : above.index < arena.slots)
      (inUse : above ∉ arena.free) : above ≠ arena.nextSlot := by
    rintro rfl
    unfold nextSlot at within inUse
    cases last : arena.free.getLast? with
    | none => simp [last] at within
    | some slot => exact inUse (by simpa [last] using List.mem_of_getLast? last)
  rintro ⟨above, parent, loops⟩
  have start : above ∉ arena.free ∧ above.index < arena.slots := by
    cases call with
    | alloc parent' =>
        obtain ⟨fresh, allocated⟩ := of_map_snd answered
        obtain rfl : parent' = some above := parent
        exact ⟨given above rfl, (alloc_ok allocated).2 above rfl⟩
    | clone source =>
        obtain ⟨block, stored, above⟩ := Option.bind_eq_some_iff.mp parent
        exact ⟨attached _ _ _ stored above, ends.within stored above⟩
    | bind | collect => simp [parentOf?] at parent
  rcases loops with rfl | ⟨path, ancestry, among⟩
  · exact apart start.2 start.1 rfl
  · clear start parent
    induction ancestry with
    | top => simp at among
    | under stored parent further ih =>
        rcases List.mem_cons.mp among with rfl | later
        · exact apart further.within (attached _ _ _ stored parent) rfl
        · exact ih later

end Steps

section Runs

variable {start last : Arena} {rest : List Call}

theorem Comes.sound (comes : start.Comes calls arena rest) (sound : start.Sound) :
    arena.Sound := by
  induction comes with
  | start => exact sound
  | next _ answered ih => exact ih.answer answered

theorem Comes.answerAll (comes : start.Comes calls arena rest) :
    arena.answerAll rest = start.answerAll calls := by
  induction comes with
  | start => rfl
  | next _ answered ih => rw [← ih, Arena.answerAll, answered]

theorem answerAll_append :
    start.answerAll (calls ++ rest) =
      (start.answerAll calls).bind fun arena => arena.answerAll rest := by
  induction calls generalizing start with
  | nil => rfl
  | cons call calls ih =>
      rw [List.cons_append, Arena.answerAll, Arena.answerAll]
      cases start.answer call with
      | error => rfl
      | ok next => exact ih

theorem comes_iff :
    start.Comes calls arena rest ↔
      ∃ front, calls = front ++ rest ∧ start.answerAll front = .ok arena := by
  constructor
  · intro comes
    induction comes with
    | start => exact ⟨[], rfl, rfl⟩
    | @next _ after call rest _ answered ih =>
        obtain ⟨front, rfl, reached⟩ := ih
        refine ⟨front ++ [call], by simp, ?_⟩
        rw [answerAll_append, reached]
        simp only [Except.bind, Arena.answerAll, answered]
  · rintro ⟨front, rfl, reached⟩
    induction front using List.reverseRecOn generalizing arena rest with
    | nil => exact Except.ok.inj reached ▸ .start
    | append_singleton front call ih =>
        rw [answerAll_append] at reached
        cases before : start.answerAll front with
        | error fault => simp [before, Except.bind] at reached
        | ok between =>
            cases answered : between.answer call with
            | error fault =>
                simp [before, Except.bind, Arena.answerAll, answered] at reached
            | ok after =>
                obtain rfl : after = arena := by simpa [before, Except.bind,
                    Arena.answerAll, answered] using reached
                have comes : start.Comes (front ++ call :: rest) between (call :: rest) :=
                  ih before
                exact .next (by simpa using comes) answered

theorem Comes.answered (comes : start.Comes calls arena (call :: rest))
    (answered : start.answerAll calls = .ok last) :
    ∃ after, arena.answer call = .ok after := by
  rw [← comes.answerAll, Arena.answerAll] at answered
  cases next : arena.answer call with
  | error fault => simp [next] at answered
  | ok after => exact ⟨after, rfl⟩

theorem Comes.ends (comes : start.Comes calls arena rest)
    (sound : start.Sound) (ends : start.Ends)
    (straight : ∀ arena call rest, start.Comes calls arena (call :: rest) →
      ¬arena.Loops call) : arena.Ends := by
  induction comes with
  | start => exact ends
  | next comes answered ih =>
      exact (ih.answer_iff (comes.sound sound) answered).mpr (straight _ _ _ comes)

theorem Comes.attached (comes : start.Comes calls arena rest) (sound : start.Sound)
    (ends : start.Ends) (attached : start.Attached)
    (given : ∀ arena above rest, start.Comes calls arena (.alloc (some above) :: rest) →
      above ∉ arena.free) : arena.Ends ∧ arena.Attached := by
  induction comes with
  | start => exact ⟨ends, attached⟩
  | @next arena after call rest comes answered ih =>
      have inUse : ∀ above, call = .alloc (some above) → above ∉ arena.free := by
        rintro above rfl
        exact given arena above rest comes
      have straight := ih.2.straight ih.1 inUse answered
      exact ⟨(ih.1.answer_iff (comes.sound sound) answered).mpr straight,
        ih.2.answer (comes.sound sound) ih.1 inUse answered⟩

/-- From the empty arena on, the parents end and every look-up is answered exactly as long
as no call puts a block into a slot that its own parents lead through; and none does so if
every parent that is asked for is in use. -/
theorem lookups_answered_iff (answered : empty.answerAll calls = .ok last) :
    ((∀ arena rest, empty.Comes calls arena rest →
      ∀ slot : BlockId, slot.index < arena.slots → (∃ path, arena.Ancestry slot path) ∧
      ∀ name, ∃ found, arena.lookup slot name = .ok found) ↔
      ∀ arena call rest, empty.Comes calls arena (call :: rest) → ¬arena.Loops call) ∧
    ((∀ arena above rest, empty.Comes calls arena (.alloc (some above) :: rest) →
      above ∉ arena.free) →
      ∀ arena call rest, empty.Comes calls arena (call :: rest) → ¬arena.Loops call) := by
  have sound : empty.Sound := ⟨List.nodup_nil, by simp [empty]⟩
  have ends : empty.Ends := fun slot within => by simp [empty, slots] at within
  refine ⟨⟨fun always arena call rest comes => ?_,
    fun straight arena rest comes slot within => ?_⟩, fun given arena call rest comes => ?_⟩
  · obtain ⟨after, next⟩ := comes.answered answered
    have before : arena.Ends := fun slot within => (always _ _ comes slot within).1
    exact (before.answer_iff (comes.sound sound) next).mp fun slot within =>
      (always _ _ (.next comes next) slot within).1
  · have still := comes.ends sound ends straight
    exact ⟨still slot within, ends_iff_lookup.mp still slot within⟩
  · obtain ⟨after, next⟩ := comes.answered answered
    have attached : empty.Attached :=
      fun slot block above stored => by simp [empty, block?] at stored
    obtain ⟨before, inUse⟩ := comes.attached sound ends attached given
    refine inUse.straight before ?_ next
    rintro above rfl
    exact given arena above rest comes

/-- A slot is released and used again, and a copy of its new block answers. -/
theorem lookups_answered_reused :
    ∃ last, empty.answerAll
        [.alloc none, .alloc (some ⟨0⟩), .collect [⟨0⟩] [], .alloc (some ⟨0⟩),
          .clone ⟨1⟩] = .ok last ∧
      last.slots = 3 ∧ ∀ name, ∃ found, last.lookup ⟨2⟩ name = .ok found := by
  obtain ⟨last, answered⟩ : ∃ last, empty.answerAll
      [.alloc none, .alloc (some ⟨0⟩), .collect [⟨0⟩] [], .alloc (some ⟨0⟩), .clone ⟨1⟩] =
      .ok last := ⟨_, rfl⟩
  have slots : last.slots = 3 := by
    rw [← Except.ok.inj answered]
    rfl
  refine ⟨last, answered, slots, ?_⟩
  obtain ⟨always, enough⟩ := lookups_answered_iff answered
  refine (always.mpr (enough fun arena above rest comes => ?_) last [] ?_ ⟨2⟩
    (slots ▸ by decide)).2
  · obtain ⟨front, split, reached⟩ := comes_iff.mp comes
    match front with
    | [] | [_, _] | [_, _, _, _] | _ :: _ :: _ :: _ :: _ :: _ => simp at split
    | [_] | [_, _, _] =>
        simp only [List.cons_append, List.nil_append, List.cons.injEq, Call.alloc.injEq,
          Option.some.injEq] at split
        simp only [← split] at reached
        obtain rfl : (⟨0⟩ : BlockId) = above := by tauto
        rw [← Except.ok.inj reached]
        decide
  · exact comes_iff.mpr ⟨_, (List.append_nil _).symm, answered⟩

/-- A released slot is asked for as a parent, and is the very slot that the
new block is put into. -/
theorem loops_releasedParent :
    ∃ last, empty.answerAll [.alloc none, .alloc (some ⟨0⟩), .alloc (some ⟨0⟩),
      .collect [⟨0⟩, ⟨2⟩] [], .alloc (some ⟨1⟩)] = .ok last ∧
      last.Live ⟨1⟩ { parent := some ⟨1⟩ } ∧ (∀ path, ¬last.Ancestry ⟨1⟩ path) ∧
      ∀ name, last.lookup ⟨1⟩ name = .error (.endlessChain ⟨1⟩) := by
  refine ⟨_, rfl, ⟨rfl, by decide⟩, fun path ancestry => ?_, fun name => rfl⟩
  obtain ⟨visited, found, finds⟩ := ancestry.finds ""
  exact absurd (lookup_ok_iff.mpr ⟨visited, finds⟩) nofun

end Runs

end TicketFlow.Arena
