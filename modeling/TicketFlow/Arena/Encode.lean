import TicketFlow.Arena.Basic
import TicketFlow.Term.Decode
import TicketFlow.Term.Encode

namespace TicketFlow

/-! The JSON form of blocks and arenas, and reading it back. -/

def Block.toJson (block : Block) : Json :=
  let parent := match block.parent with
    | some above => above.toJson
    | none => .null
  .object [("parent", parent), ("bindings", Bindings.toJson block.bindings)]

def Arena.toJson (arena : Arena) : Json :=
  .object [("blocks", .array (arena.blocks.toList.map Block.toJson)),
    ("free", .array (arena.free.map BlockId.toJson))]

namespace RawJson

def block? (depth : Nat) (value : RawJson) : Option Block :=
  inside depth fun depth => do
    let record ← value.record? ["parent", "bindings"]
    let parent ← record.optional 0 blockId?
    let bindings ← record.required 1 (bindings? depth)
    pure { parent, bindings }

def arena? (depth : Nat) (value : RawJson) : Option Arena :=
  inside depth fun depth => do
    let record ← value.record? ["blocks", "free"]
    let blocks ← record.required 0
        fun field => inside depth fun depth => field.array? (block? depth)
    let free ← record.defaulted 1 [] fun field => inside depth fun _ => field.array? blockId?
    pure { blocks := blocks.toArray, free }

end RawJson

end TicketFlow
