import TicketFlow.Arena.Basic

namespace TicketFlow

/-! Collection of blocks that nothing refers to any more.

A block refers to its parent and to the blocks named in its bindings.
Collection marks what can be reached from some roots and terms, empties every
other slot, cuts off the unmarked slots at the end and lists the rest as free.
-/

def Block.references (block : Block) : List BlockId :=
  block.parent.toList ++ Term.blocksOfBindings block.bindings

namespace Arena

def references (arena : Arena) (block : BlockId) : List BlockId :=
  match arena.block? block with
  | some found => found.references
  | none => []

def isUnmarked (marked : List Bool) (block : BlockId) : Bool :=
  marked[block.index]? == some false

/-- Marks pending slots and what they refer to.  Each step marks one slot more,
so as many steps as there are slots reach the end, also where blocks refer to
each other in a circle. -/
def markPending (arena : Arena) : Nat → List Bool → List BlockId → List Bool
  | 0, marked, _ => marked
  | steps + 1, marked, pending =>
      match pending.dropWhile fun block => !isUnmarked marked block with
      | [] => marked
      | block :: rest =>
          markPending arena steps (marked.set block.index true)
            (arena.references block ++ rest)

/-- For each slot, whether it can be reached from the roots or the terms. -/
def reached (arena : Arena) (roots : List BlockId) (live : List Compound) : List Bool :=
  arena.markPending arena.slots (List.replicate arena.slots false)
    (roots ++ live.flatMap Compound.blocks)

def trimMarks (marked : List Bool) : List Bool :=
  (marked.reverse.dropWhile fun mark => !mark).reverse

/-- The unmarked places, ascending from `start`. -/
def unmarkedFrom : Nat → List Bool → List BlockId
  | _, [] => []
  | start, mark :: rest =>
      if mark then unmarkedFrom (start + 1) rest else
        ⟨start⟩ :: unmarkedFrom (start + 1) rest

/-- The blocks at marked places; the others become empty blocks. -/
def keepMarked : List Block → List Bool → List Block
  | block :: blocks, mark :: marks =>
      (if mark then block else {}) :: keepMarked blocks marks
  | _, _ => []

/-- The arena with every block released that cannot be reached from the roots or the terms. -/
def collected (arena : Arena) (roots : List BlockId) (live : List Compound) : Arena :=
  let marks := trimMarks (arena.reached roots live)
  { blocks := (keepMarked arena.blocks.toList marks).toArray
    free := unmarkedFrom 0 marks }

/-- What is left of a size, as 64 bits hold it: below zero it wraps. -/
def sizeLess (before after : Nat) : Nat :=
  if after ≤ before then before - after else UInt64.size + before - after

/-- Releases what cannot be reached, and tells by how much the arena has become smaller. -/
def collect (arena : Arena) (roots : List BlockId) (live : List Compound) : Nat × Arena :=
  let next := arena.collected roots live
  (sizeLess arena.size next.size, next)

end Arena

end TicketFlow
