import TicketFlow.Arena.Basic

namespace TicketFlow

/-! The state of one query: an arena, its root block and the targets asked for. -/

structure Context where
  arena : Arena
  root : BlockId
  targets : List Compound
deriving DecidableEq, Repr, Inhabited

namespace Context

def empty : Context :=
  let (root, arena) := Arena.empty.insert {}
  { arena, root, targets := [] }

def allocAll (arena : Arena) : List (Option BlockId) → Except Arena.Fault Arena
  | [] => .ok arena
  | parent :: rest =>
      match arena.alloc parent with
      | .ok (_, next) => allocAll next rest
      | .error fault => .error fault

/-- Binds what each block binds, in the blocks numbered from `start` on. -/
def bindBlocks (arena : Arena) (start : Nat) : List Block → Except Arena.Fault Arena
  | [] => .ok arena
  | block :: rest =>
      match arena.bindAll ⟨start⟩ block.bindings with
      | .ok next => bindBlocks next (start + 1) rest
      | .error fault => .error fault

/-- A context with the blocks numbered from one on, bindings in its root block, and
targets.  The parent of a block comes before it. -/
def make (blocks : List Block) (root : Bindings) (targets : List Compound) :
    Except Arena.Fault Context :=
  match allocAll empty.arena (blocks.map Block.parent) with
  | .error fault => .error fault
  | .ok allocated =>
      match bindBlocks allocated 1 blocks with
      | .error fault => .error fault
      | .ok bound =>
          (bound.bindAll empty.root root).map fun arena =>
            { arena, root := empty.root, targets }

def bind (context : Context) (name : String) (value : Compound) :
    Except Arena.Fault Context :=
  (context.arena.bind context.root name value).map fun bound =>
    { context with arena := bound.2 }

def current (context : Context) : Compound :=
  context.targets.flatten

end Context

end TicketFlow
