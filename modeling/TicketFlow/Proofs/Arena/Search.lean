import Mathlib.Data.List.Perm.Subperm
import TicketFlow.Proofs.Arena.Reachable

namespace TicketFlow.Arena

/-! What a search on the way up through the parents finds.

A search that ends visits no slot twice: met again, a slot would lead on as it
did before.  So a search finds something exactly if the chain of parents ends,
however many slots there are.
-/

/-- The search for the name visits these slots, and finds this. -/
inductive Finds (arena : Arena) (name : String) :
    BlockId → List BlockId → Option Compound → Prop where
  | here {slot : BlockId} {block : Block} {value : Compound} :
      arena.block? slot = some block → block.get? name = some value →
      Finds arena name slot [slot] (some value)
  | nowhere {slot : BlockId} {block : Block} :
      arena.block? slot = some block → block.get? name = none → block.parent = none →
      Finds arena name slot [slot] none
  | above {slot above : BlockId} {block : Block}
      {path : List BlockId} {found : Option Compound} :
      arena.block? slot = some block → block.get? name = none → block.parent = some above →
      Finds arena name above path found → Finds arena name slot (slot :: path) found

variable {arena before after : Arena} {name : String} {slot other : BlockId}
  {path others : List BlockId} {found result : Option Compound} {steps : Nat}

theorem Finds.unique (finds : arena.Finds name slot path found)
    (again : arena.Finds name slot others result) : others = path ∧ result = found := by
  induction finds generalizing others result with
  | here stored bound => cases again <;> simp_all
  | nowhere stored unbound parentless => cases again <;> simp_all
  | above stored unbound parent _ ih =>
      cases again with
      | here stored' bound => simp_all
      | nowhere stored' _ parentless => simp_all
      | above stored' _ parent' further =>
          obtain rfl := Option.some.inj (stored.symm.trans stored')
          obtain rfl := Option.some.inj (parent.symm.trans parent')
          obtain ⟨rfl, rfl⟩ := ih further
          exact ⟨rfl, rfl⟩

/-- From every slot on its way the search goes on as before. -/
theorem Finds.onward (finds : arena.Finds name slot path found) (visited : other ∈ path) :
    ∃ rest, rest <:+ path ∧ arena.Finds name other rest found := by
  induction finds with
  | here stored bound =>
      obtain rfl := List.mem_singleton.mp visited
      exact ⟨_, List.suffix_rfl, .here stored bound⟩
  | nowhere stored unbound parentless =>
      obtain rfl := List.mem_singleton.mp visited
      exact ⟨_, List.suffix_rfl, .nowhere stored unbound parentless⟩
  | above stored unbound parent further ih =>
      rcases List.mem_cons.mp visited with rfl | later
      · exact ⟨_, List.suffix_rfl, .above stored unbound parent further⟩
      · obtain ⟨rest, ends, onward⟩ := ih later
        exact ⟨rest, ends.trans (List.suffix_cons _ _), onward⟩

theorem Finds.nodup (finds : arena.Finds name slot path found) : path.Nodup := by
  induction finds with
  | here => exact List.nodup_singleton _
  | nowhere => exact List.nodup_singleton _
  | above stored unbound parent further ih =>
      refine List.nodup_cons.mpr ⟨fun again => ?_, ih⟩
      obtain ⟨rest, ends, onward⟩ := further.onward again
      obtain ⟨rfl, _⟩ := (Finds.above stored unbound parent further).unique onward
      exact absurd ends.length_le (Nat.not_succ_le_self _)

theorem Finds.slots (finds : arena.Finds name slot path found) (visited : other ∈ path) :
    other.index < arena.slots := by
  induction finds with
  | here stored _ => exact List.mem_singleton.mp visited ▸ index_lt_of_block? stored
  | nowhere stored _ _ => exact List.mem_singleton.mp visited ▸ index_lt_of_block? stored
  | above stored _ _ _ ih =>
      exact (List.mem_cons.mp visited).elim (· ▸ index_lt_of_block? stored) ih

theorem Finds.length_le (finds : arena.Finds name slot path found) :
    path.length ≤ arena.slots := by
  have apart : (path.map BlockId.index).Nodup :=
    finds.nodup.map fun first second same => by cases first; cases second; simpa using same
  have within : path.map BlockId.index ⊆ List.range arena.slots := by
    intro index inside
    obtain ⟨visited, among, rfl⟩ := List.mem_map.mp inside
    exact List.mem_range.mpr (finds.slots among)
  simpa using (apart.subperm within).length_le

theorem lookupWithin_ok_iff :
    arena.lookupWithin name steps slot = .ok found ↔
      ∃ path, arena.Finds name slot path found ∧ path.length ≤ steps := by
  induction steps generalizing slot with
  | zero =>
      refine ⟨fun read => by simp [lookupWithin] at read, fun ends => ?_⟩
      obtain ⟨path, finds, short⟩ := ends
      cases finds <;> simp at short
  | succ steps ih =>
      constructor
      · intro read
        cases stored : arena.block? slot with
        | none => simp [lookupWithin, get, stored] at read
        | some block =>
            simp only [lookupWithin, get_ok stored] at read
            cases bound : block.get? name with
            | some value =>
                simp only [bound, Except.ok.injEq] at read
                exact ⟨[slot], read ▸ .here stored bound, Nat.le_add_left 1 steps⟩
            | none =>
                cases parent : block.parent with
                | none =>
                    simp only [bound, parent, Except.ok.injEq] at read
                    exact ⟨[slot], read ▸ .nowhere stored bound parent,
                      Nat.le_add_left 1 steps⟩
                | some above =>
                    simp only [bound, parent] at read
                    obtain ⟨path, finds, short⟩ := ih.mp read
                    exact ⟨slot :: path, .above stored bound parent finds,
                      Nat.succ_le_succ short⟩
      · rintro ⟨path, finds, short⟩
        cases finds with
        | here stored bound => simp only [lookupWithin, get_ok stored, bound]
        | nowhere stored unbound parentless =>
            simp only [lookupWithin, get_ok stored, unbound, parentless]
        | above stored unbound parent further =>
            simp only [lookupWithin, get_ok stored, unbound, parent]
            exact ih.mpr ⟨_, further, Nat.le_of_succ_le_succ short⟩

/-- A look-up finds something exactly if the search ends. -/
theorem lookup_ok_iff :
    arena.lookup slot name = .ok found ↔ ∃ path, arena.Finds name slot path found := by
  have start : (∃ block, arena.block? slot = some block) →
      (arena.lookup slot name = .ok found ↔ ∃ path, arena.Finds name slot path found) := by
    intro ⟨block, stored⟩
    simp only [lookup, stored, lookupWithin_ok_iff]
    exact exists_congr fun path =>
      ⟨And.left, fun finds => ⟨finds, Nat.le_succ_of_le finds.length_le⟩⟩
  cases stored : arena.block? slot with
  | some block => exact start ⟨block, stored⟩
  | none =>
      refine ⟨fun read => by simp [lookup, stored] at read, fun ⟨path, finds⟩ => ?_⟩
      cases finds <;> simp_all

/-- A look-up answers what the block binds, or goes on in its parent. -/
theorem lookup_ok_iff_of_stored {block : Block}
    (stored : arena.block? slot = some block) : arena.lookup slot name = .ok found ↔
      match block.get? name, block.parent with
      | some here, _ => found = some here
      | none, some above => arena.lookup above name = .ok found
      | none, none => found = none := by
  have same {other : Block} (again : arena.block? slot = some other) : other = block :=
    Option.some.inj (again.symm.trans stored)
  constructor
  · intro read
    obtain ⟨path, finds⟩ := lookup_ok_iff.mp read
    cases finds with
    | here again bound => simp only [same again ▸ bound]
    | nowhere again unbound parentless =>
        simp only [same again ▸ unbound, same again ▸ parentless]
    | above again unbound parent further =>
        simpa only [same again ▸ unbound,
          same again ▸ parent] using lookup_ok_iff.mpr ⟨_, further⟩
  · intro read
    refine lookup_ok_iff.mpr ?_
    cases bound : block.get? name with
    | some here =>
        obtain rfl : found = some here := by simpa only [bound] using read
        exact ⟨_, .here stored bound⟩
    | none =>
        cases parent : block.parent with
        | none =>
            obtain rfl : found = none := by simpa only [bound, parent] using read
            exact ⟨_, .nowhere stored bound parent⟩
        | some above =>
            obtain ⟨path, further⟩ :=
              lookup_ok_iff.mp (by simpa only [bound, parent] using read)
            exact ⟨_, .above stored bound parent further⟩

/-- The search for the name ends in this block, which binds it to the value. -/
def FindsIn (arena : Arena) (name : String) (slot holder : BlockId)
    (value : Compound) : Prop :=
  ∃ path, arena.Finds name slot path (some value) ∧ holder ∈ path.getLast?

theorem FindsIn.lookup {holder : BlockId} {value : Compound}
    (finds : arena.FindsIn name slot holder value) :
    arena.lookup slot name = .ok (some value) := by
  obtain ⟨path, finds, _⟩ := finds
  exact lookup_ok_iff.mpr ⟨path, finds⟩

/-- From a safe slot a search finds the same when blocks have been made. -/
theorem Preserves.finds (preserves : before.Preserves after) (safe : before.Safe slot)
    (finds : before.Finds name slot path found) : after.Finds name slot path found := by
  induction finds with
  | @here slot _ _ stored bound =>
      obtain ⟨block, live⟩ := safe.live
      obtain rfl := Option.some.inj (live.1.symm.trans stored)
      exact .here (preserves.live live).1 bound
  | nowhere stored unbound parentless =>
      obtain ⟨block, live⟩ := safe.live
      obtain rfl := Option.some.inj (live.1.symm.trans stored)
      exact .nowhere (preserves.live live).1 unbound parentless
  | above stored unbound parent _ ih =>
      obtain ⟨block, live⟩ := safe.live
      obtain rfl := Option.some.inj (live.1.symm.trans stored)
      exact .above (preserves.live live).1 unbound parent (ih (safe.parent live parent))

theorem Preserves.lookup (preserves : before.Preserves after)
    (safe : before.Safe slot) (read : before.lookup slot name = .ok found) :
    after.lookup slot name = .ok found := by
  obtain ⟨path, finds⟩ := lookup_ok_iff.mp read
  exact lookup_ok_iff.mpr ⟨path, preserves.finds safe finds⟩

/-- From a safe slot a search that ends found the same before blocks were made. -/
theorem Preserves.lookup_of_safe (preserves : before.Preserves after)
    (safe : before.Safe slot) (read : after.lookup slot name = .ok found) :
    before.lookup slot name = .ok found := by
  obtain ⟨path, finds⟩ := lookup_ok_iff.mp read
  refine lookup_ok_iff.mpr ⟨path, ?_⟩
  induction finds with
  | here stored bound =>
      obtain ⟨block, live⟩ := safe.live
      obtain rfl := Option.some.inj ((preserves.live live).1.symm.trans stored)
      exact .here live.1 bound
  | nowhere stored unbound parentless =>
      obtain ⟨block, live⟩ := safe.live
      obtain rfl := Option.some.inj ((preserves.live live).1.symm.trans stored)
      exact .nowhere live.1 unbound parentless
  | above stored unbound parent further ih =>
      obtain ⟨block, live⟩ := safe.live
      obtain rfl := Option.some.inj ((preserves.live live).1.symm.trans stored)
      exact .above live.1 unbound parent
        (ih (safe.parent live parent) (lookup_ok_iff.mpr ⟨_, further⟩))

/-- From a safe slot the same is found after blocks have been made, and nothing else. -/
theorem Preserves.lookup_iff (preserves : before.Preserves after)
    (safe : before.Safe slot) (found : Option Compound) :
    after.lookup slot name = .ok found ↔ before.lookup slot name = .ok found :=
  ⟨preserves.lookup_of_safe safe, preserves.lookup safe⟩

end TicketFlow.Arena
