import TicketFlow.Proofs.Arena.Search
import TicketFlow.Proofs.Reduction.InStep
import TicketFlow.Proofs.Timing.Foreshadow
import TicketFlow.Proofs.Timing.Lingering

namespace TicketFlow

/-! Passes that go the same way with less and with more known.

The one that knows less makes fewer blocks and keeps terms that wait.  The blocks
that both have made are paired: they are in use on both sides, below paired
parents, and bind the same names, early to what foreshadows what they are bound
to late.  What was there at the start is bound to the same: only in a block that
was made since, something may stand for what is known late.  Whatever else either
side makes changes nothing about that.
-/

variable {waits : Placeholder → Prop} {made : BlockId → Prop}
  {pairs wider : BlockId → BlockId → Prop}

/-- Paired parents, and arguments that foreshadow the others. -/
structure Block.Mirrors (waits : Placeholder → Prop) (pairs : BlockId → BlockId → Prop)
    (early late : Block) : Prop where
  parent : Option.Rel pairs early.parent late.parent
  bindings : Bindings.Foreshadows waits pairs early.bindings late.bindings

/-- Blocks in use are paired one to one, and those that are paired mirror each other. -/
structure Arena.Mirrors (waits : Placeholder → Prop) (made : BlockId → Prop)
    (pairs : BlockId → BlockId → Prop) (early late : Arena) : Prop where
  functional : ∀ {slot left right}, pairs slot left → pairs slot right → left = right
  injective : ∀ {slot left right}, pairs left slot → pairs right slot → left = right
  given : ∀ {slot}, ¬made slot → ∃ block, early.Live slot block
  blocks : ∀ {slot other}, pairs slot other →
    ∃ block found, early.Live slot block ∧ late.Live other found ∧
      block.Mirrors (WaitsIf (made slot) waits) pairs found

section Blocks

variable {block found : Block} {bindings others : Bindings} {name : String}

theorem Block.Mirrors.imp {still : Placeholder → Prop}
    (mirrors : block.Mirrors waits pairs found)
    (waiting : ∀ placeholder, waits placeholder → still placeholder)
    (within : pairs ≤ wider) : block.Mirrors still wider found where
  parent := by
    have parents := mirrors.parent
    generalize block.parent = above, found.parent = other at parents
    cases parents with
    | some paired => exact .some (within _ _ paired)
    | none => exact .none
  bindings := Bindings.Foreshadows.imp waiting within mirrors.bindings

theorem Block.Mirrors.mono (mirrors : block.Mirrors waits pairs found)
    (within : pairs ≤ wider) : block.Mirrors waits wider found :=
  mirrors.imp (fun _ => id) within

theorem Block.Mirrors.get? (mirrors : block.Mirrors waits pairs found) (name : String) :
    Option.Rel (Compound.Foreshadows waits pairs) (block.get? name) (found.get? name) :=
  mirrors.bindings.get? name

theorem Block.Mirrors.rebind (mirrors : block.Mirrors waits pairs found)
    (arguments : Bindings.Foreshadows waits pairs bindings others) :
    (block.rebind bindings).Mirrors waits pairs (found.rebind others) := by
  induction arguments generalizing block found with
  | nil => exact mirrors
  | @cons name value other _ _ here _ ih =>
      have inserted : Block.Mirrors waits pairs
          { block with bindings := block.bindings.insert name value }
          { found with bindings := found.bindings.insert name other } :=
        ⟨mirrors.parent, mirrors.bindings.insert here⟩
      exact ih inserted

end Blocks

namespace Arena

variable {early late before after : Arena} {slot other fresh twin : BlockId}
  {block found : Block} {name : String}

theorem Mirrors.pairedOnce (mirrors : early.Mirrors waits made pairs late) :
    PairedOnce pairs :=
  ⟨mirrors.functional, mirrors.injective⟩

theorem Mirrors.preserved (mirrors : early.Mirrors waits made pairs late)
    (left : early.Preserves before) (right : late.Preserves after) :
    before.Mirrors waits made pairs after where
  functional := mirrors.functional
  injective := mirrors.injective
  given unmade := by
    obtain ⟨block, live⟩ := mirrors.given unmade
    exact ⟨block, left.live live⟩
  blocks paired := by
    obtain ⟨block, found, here, there, same⟩ := mirrors.blocks paired
    exact ⟨block, found, left.live here, right.live there, same⟩

/-- The pairs with one more. -/
def Joined (pairs : BlockId → BlockId → Prop) (fresh twin : BlockId)
    (slot other : BlockId) : Prop :=
  pairs slot other ∨ slot = fresh ∧ other = twin

theorem le_joined (pairs : BlockId → BlockId → Prop) (fresh twin : BlockId) :
    pairs ≤ Joined pairs fresh twin :=
  fun _ _ => .inl

/-- New blocks may be paired if they mirror each other. -/
theorem Mirrors.join (mirrors : early.Mirrors waits made pairs late)
    (left : early.Extends before fresh block) (right : late.Extends after twin found)
    (same : block.Mirrors waits pairs found) :
    before.Mirrors waits made (Joined pairs fresh twin) after where
  functional := by
    intro slot first second one two
    rcases one with one | ⟨rfl, rfl⟩ <;> rcases two with two | ⟨here, there⟩
    · exact mirrors.functional one two
    · obtain ⟨_, _, live, _⟩ := mirrors.blocks one
      exact absurd (here ▸ live) (left.unused _)
    · obtain ⟨_, _, live, _⟩ := mirrors.blocks two
      exact absurd live (left.unused _)
    · exact there.symm
  injective := by
    intro slot first second one two
    rcases one with one | ⟨rfl, rfl⟩ <;> rcases two with two | ⟨here, there⟩
    · exact mirrors.injective one two
    · obtain ⟨_, _, _, live, _⟩ := mirrors.blocks one
      exact absurd (there ▸ live) (right.unused _)
    · obtain ⟨_, _, _, live, _⟩ := mirrors.blocks two
      exact absurd live (right.unused _)
    · exact here.symm
  given unmade := by
    obtain ⟨block, live⟩ := mirrors.given unmade
    exact ⟨block, left.preserves live⟩
  blocks := by
    intro slot other paired
    rcases paired with paired | ⟨rfl, rfl⟩
    · obtain ⟨block, found, here, there, same⟩ := mirrors.blocks paired
      exact ⟨block, found, left.preserves here, right.preserves there,
        same.mono (le_joined pairs fresh twin)⟩
    · -- the slot was not in use, so the block is not one of the start
      have fresh : made slot := by_contra fun unmade => by
        obtain ⟨given, live⟩ := mirrors.given unmade
        exact left.unused given live
      exact ⟨block, found, left.live, right.live,
        same.imp (fun _ waiting => ⟨fresh, waiting⟩) (le_joined pairs slot other)⟩

theorem Mirrors.stored (mirrors : early.Mirrors waits made pairs late)
    (paired : pairs slot other) (there : late.block? other = some found) :
    ∃ block, early.block? slot = some block ∧
      block.Mirrors (WaitsIf (made slot) waits) pairs found := by
  obtain ⟨block, mirrored, here, live, same⟩ := mirrors.blocks paired
  obtain rfl := Option.some.inj (live.1.symm.trans there)
  exact ⟨block, here.1, same⟩

/-- From paired blocks a search finds nothing on both sides, or early what
foreshadows what is found late. -/
theorem Mirrors.finds (mirrors : early.Mirrors waits made pairs late)
    {path : List BlockId} {result : Option Compound}
    (finds : late.Finds name other path result) (paired : pairs slot other) :
    match result with
    | none => ∃ way, early.Finds name slot way none
    | some values => ∃ holder value, early.FindsIn name slot holder value ∧
        value.Foreshadows (WaitsIf (made holder) waits) pairs values := by
  induction finds generalizing slot with
  | here stored bound =>
      obtain ⟨block, here, same⟩ := mirrors.stored paired stored
      obtain ⟨value, boundHere, foreshadows⟩ :=
        OrderedMap.rel_some_right (bound ▸ same.get? name)
      exact ⟨slot, value, ⟨[slot], .here here boundHere, rfl⟩, foreshadows⟩
  | nowhere stored unbound parentless =>
      obtain ⟨block, here, same⟩ := mirrors.stored paired stored
      have unboundHere := OrderedMap.rel_none_right (unbound ▸ same.get? name)
      exact ⟨_,
        .nowhere here unboundHere (OrderedMap.rel_none_right (parentless ▸ same.parent))⟩
  | @above _ _ _ _ result stored unbound parent _ ih =>
      obtain ⟨block, here, same⟩ := mirrors.stored paired stored
      have unboundHere := OrderedMap.rel_none_right (unbound ▸ same.get? name)
      obtain ⟨upper, above, parents⟩ := OrderedMap.rel_some_right (parent ▸ same.parent)
      have onward := ih parents
      cases result with
      | none =>
          obtain ⟨way, finds⟩ := onward
          exact ⟨_, .above here unboundHere above finds⟩
      | some values =>
          obtain ⟨holder, value, ⟨way, finds, last⟩, foreshadows⟩ := onward
          exact ⟨holder, value, ⟨_, .above here unboundHere above finds,
            List.mem_getLast?_cons last⟩, foreshadows⟩

theorem Mirrors.stored_early (mirrors : early.Mirrors waits made pairs late)
    (paired : pairs slot other) (here : early.block? slot = some block) :
    ∃ found, late.block? other = some found ∧
      block.Mirrors (WaitsIf (made slot) waits) pairs found := by
  obtain ⟨mirrored, found, live, there, same⟩ := mirrors.blocks paired
  obtain rfl := Option.some.inj (live.1.symm.trans here)
  exact ⟨found, there.1, same⟩

/-- A search that ends early ends late. -/
theorem Mirrors.finds_late (mirrors : early.Mirrors waits made pairs late)
    {path : List BlockId} {result : Option Compound}
    (finds : early.Finds name slot path result) (paired : pairs slot other) :
    ∃ way found, late.Finds name other way found := by
  induction finds generalizing other with
  | here stored bound =>
      obtain ⟨found, there, same⟩ := mirrors.stored_early paired stored
      obtain ⟨value, boundLate, _⟩ := same.bindings.get?_some bound
      exact ⟨_, _, .here there boundLate⟩
  | nowhere stored unbound parentless =>
      obtain ⟨found, there, same⟩ := mirrors.stored_early paired stored
      have parents := same.parent
      rw [parentless] at parents
      cases above : found.parent with
      | none => exact ⟨_, _, .nowhere there (same.bindings.get?_none unbound) above⟩
      | some upper => simp [above] at parents
  | above stored unbound parent _ ih =>
      obtain ⟨found, there, same⟩ := mirrors.stored_early paired stored
      have parents := same.parent
      rw [parent] at parents
      cases above : found.parent with
      | none => simp [above] at parents
      | some upper =>
          obtain ⟨way, result, further⟩ := ih (by simpa [above] using parents)
          exact ⟨_, _, .above there (same.bindings.get?_none unbound) above further⟩

theorem Mirrors.lookup_none (mirrors : early.Mirrors waits made pairs late)
    (paired : pairs slot other) (read : late.lookup other name = .ok none) :
    early.lookup slot name = .ok none := by
  obtain ⟨path, finds⟩ := lookup_ok_iff.mp read
  exact lookup_ok_iff.mpr (mirrors.finds finds paired)

theorem Mirrors.lookup_some (mirrors : early.Mirrors waits made pairs late)
    (paired : pairs slot other) {values : Compound}
    (read : late.lookup other name = .ok (some values)) :
    ∃ holder value, early.FindsIn name slot holder value ∧
      value.Foreshadows (WaitsIf (made holder) waits) pairs values := by
  obtain ⟨path, finds⟩ := lookup_ok_iff.mp read
  exact mirrors.finds finds paired

theorem Mirrors.getLocal (mirrors : early.Mirrors waits made pairs late)
    (paired : pairs slot other) (name : String) :
    ∃ value result, early.getLocal slot name = .ok value ∧
      late.getLocal other name = .ok result ∧
      Option.Rel (Compound.Foreshadows (WaitsIf (made slot) waits) pairs) value result := by
  obtain ⟨block, found, here, there, same⟩ := mirrors.blocks paired
  exact ⟨block.get? name, found.get? name, by rw [Arena.getLocal, get_ok here.1]; rfl,
    by rw [Arena.getLocal, get_ok there.1]; rfl, same.get? name⟩

end Arena

/-- The one pass knows less than the other one and is where that is: in paired scopes,
resolving the same names in them. -/
structure Pass.Mirrors (known more : Store) (made : BlockId → Prop)
    (pairs : BlockId → BlockId → Prop) (early late : Pass Store) : Prop where
  source : early.source = known
  sourceLate : late.source = more
  sound : early.arena.Sound
  soundLate : late.arena.Sound
  arena : early.arena.Mirrors known.Waits made pairs late.arena
  root : pairs early.root late.root
  scopes : List.Forall₂ pairs early.scopes late.scopes
  resolving :
    List.Forall₂ (fun left right => pairs left.1 right.1 ∧ left.2 = right.2)
      early.resolving late.resolving

namespace Pass

variable {known more : Store} {early late before after : Pass Store}
  {slot other : BlockId} {name : String}

theorem Mirrors.follows (mirrors : early.Mirrors known more made pairs late)
    (left : early.Follows before) (right : late.Follows after) :
    before.Mirrors known more made pairs after where
  source := left.source.trans mirrors.source
  sourceLate := right.source.trans mirrors.sourceLate
  sound := left.sound mirrors.sound
  soundLate := right.sound mirrors.soundLate
  arena := mirrors.arena.preserved left.arena right.arena
  root := left.root ▸ right.root ▸ mirrors.root
  scopes := left.scopes ▸ right.scopes ▸ mirrors.scopes
  resolving := left.resolving ▸ right.resolving ▸ mirrors.resolving

theorem Mirrors.inStep (mirrors : early.Mirrors known more made pairs late) :
    early.InStep pairs late :=
  ⟨mirrors.root, mirrors.scopes, mirrors.resolving⟩

/-- What else is there may mirror on as long as the scopes stay in step. -/
theorem Mirrors.moved (mirrors : early.Mirrors known more made pairs late)
    (left : early.source = before.source) (right : late.source = after.source)
    (leftArena : early.arena = before.arena)
    (rightArena : late.arena = after.arena) (inStep : before.InStep pairs after) :
    before.Mirrors known more made pairs after where
  source := left ▸ mirrors.source
  sourceLate := right ▸ mirrors.sourceLate
  sound := leftArena ▸ mirrors.sound
  soundLate := rightArena ▸ mirrors.soundLate
  arena := leftArena ▸ rightArena ▸ mirrors.arena
  root := inStep.root
  scopes := inStep.scopes
  resolving := inStep.resolving

theorem Mirrors.scope (mirrors : early.Mirrors known more made pairs late) :
    pairs early.scope late.scope :=
  mirrors.inStep.scope

theorem Mirrors.enter (mirrors : early.Mirrors known more made pairs late)
    (paired : pairs slot other) :
    (PassM.enter slot early).Mirrors known more made pairs (PassM.enter other late) :=
  mirrors.moved rfl rfl rfl rfl (mirrors.inStep.enter paired)

theorem Mirrors.leave (mirrors : early.Mirrors known more made pairs late) :
    (PassM.leave early).Mirrors known more made pairs (PassM.leave late) :=
  mirrors.moved rfl rfl rfl rfl mirrors.inStep.leave

/-- A name is being resolved in paired scopes on both sides or on neither. -/
theorem Mirrors.contains_resolving (mirrors : early.Mirrors known more made pairs late)
    (paired : pairs slot other) (name : String) :
    late.resolving.contains (other, name) = early.resolving.contains (slot, name) :=
  mirrors.inStep.contains_resolving mirrors.arena.pairedOnce paired name

theorem Mirrors.mark (mirrors : early.Mirrors known more made pairs late)
    (paired : pairs slot other) (name : String) :
    Pass.Mirrors known more made pairs
      { early with resolving := (slot, name) :: early.resolving }
      { late with resolving := (other, name) :: late.resolving } :=
  mirrors.moved rfl rfl rfl rfl (mirrors.inStep.mark paired name)

theorem Mirrors.unmark (mirrors : early.Mirrors known more made pairs late)
    (paired : pairs slot other) (name : String) : Pass.Mirrors known more made pairs
      { early with resolving := early.resolving.filter fun key => key != (slot, name) }
      { late with resolving := late.resolving.filter fun key => key != (other, name) } :=
  mirrors.moved rfl rfl rfl rfl (mirrors.inStep.unmark mirrors.arena.pairedOnce paired name)

end Pass

end TicketFlow
