import TicketFlow.Term.Text

namespace TicketFlow

/-! Blocks and the arena that owns them.

A block binds names and may have a lexical parent.  The arena of a query owns
every block its terms refer to, by number; a released slot is handed out again,
the one released last first.  Every access to a slot beyond the arena is a fault.
-/

structure Block where
  parent : Option BlockId := none
  bindings : Bindings := []
deriving DecidableEq, Repr, Inhabited

namespace Block

def get? (block : Block) (name : String) : Option Compound :=
  block.bindings.get? name

end Block

structure Arena where
  blocks : Array Block := #[]
  /-- The released slots; the last one is handed out next. -/
  free : List BlockId := []
deriving DecidableEq, Repr, Inhabited

namespace Arena

/-- Accesses that no well-formed query makes. -/
inductive Fault where
  /-- A block was asked for whose parent is beyond the arena. -/
  | unknownParent (parent : BlockId)
  /-- A slot beyond the arena was read, bound or copied. -/
  | outOfRange (block : BlockId)
  /-- The parents of a block do not come to an end. -/
  | endlessChain (block : BlockId)
deriving DecidableEq, Repr

def Fault.message? : Fault → Option String
  | .unknownParent parent => some ("unknown parent block " ++ parent.text)
  | .outOfRange _ | .endlessChain _ => none

def empty : Arena := {}

def slots (arena : Arena) : Nat :=
  arena.blocks.size

def size (arena : Arena) : Nat :=
  arena.slots - arena.free.length

def block? (arena : Arena) (block : BlockId) : Option Block :=
  arena.blocks[block.index]?

def get (arena : Arena) (block : BlockId) : Except Fault Block :=
  match arena.block? block with
  | some found => .ok found
  | none => .error (.outOfRange block)

/-- Puts a block into the slot released last, or into a new one.  An arena has room for a
new one while it has fewer slots than there are numbers. -/
def insert (arena : Arena) (block : Block) : BlockId × Arena :=
  match arena.free.getLast? with
  | some slot =>
      (slot,
        { blocks := arena.blocks.setIfInBounds slot.index block, free := arena.free.dropLast })
  | none => (⟨arena.slots⟩, { arena with blocks := arena.blocks.push block })

def alloc (arena : Arena) (parent : Option BlockId) : Except Fault (BlockId × Arena) :=
  match parent with
  | none => .ok (arena.insert {})
  | some above =>
      if above.index < arena.slots then .ok (arena.insert { parent })
      else .error (.unknownParent above)

def cloneBlock (arena : Arena) (block : BlockId) : Except Fault (BlockId × Arena) :=
  (arena.get block).map arena.insert

/-- Binds a name in a block; the value it had there is handed back. -/
def bind (arena : Arena) (block : BlockId) (name : String) (value : Compound) :
    Except Fault (Option Compound × Arena) :=
  (arena.get block).map fun found =>
    (found.get? name,
      { arena with
        blocks := arena.blocks.setIfInBounds block.index
          { found with bindings := found.bindings.insert name value } })

def bindAll (arena : Arena) (block : BlockId) : Bindings → Except Fault Arena
  | [] => .ok arena
  | (name, value) :: rest =>
      match arena.bind block name value with
      | .ok (_, next) => bindAll next block rest
      | .error fault => .error fault

def getLocal (arena : Arena) (block : BlockId) (name : String) :
    Except Fault (Option Compound) :=
  (arena.get block).map fun found => found.get? name

/-- The nearest binding on the way up through the parents, at most `steps` of them. -/
def lookupWithin (arena : Arena) (name : String) :
    Nat → BlockId → Except Fault (Option Compound)
  | 0, block => .error (.endlessChain block)
  | steps + 1, block =>
      match arena.get block with
      | .error fault => .error fault
      | .ok found =>
          match found.get? name with
          | some value => .ok (some value)
          | none =>
              match found.parent with
              | some above => lookupWithin arena name steps above
              | none => .ok none

/-- The nearest binding on the way up through the parents.  A chain of parents that ends
visits no slot twice, so as many steps as there are slots reach its end. -/
def lookup (arena : Arena) (block : BlockId) (name : String) :
    Except Fault (Option Compound) :=
  match arena.block? block with
  | none => .error (.outOfRange block)
  | some _ => arena.lookupWithin name (arena.slots + 1) block

end Arena

end TicketFlow
