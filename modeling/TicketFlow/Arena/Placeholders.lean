import TicketFlow.Arena.Basic

namespace TicketFlow

/-! The search for unresolved tickets.

A compound holds a placeholder if one stands in it as an alternative, in a
nested task, binding or condition, or in a declared output of the branch blocks
of a conditional.  Lambdas are values: what their bodies say does not count.
-/

namespace Term

mutual

def holdsPlaceholder (output : BlockId → String → Bool) : Term → Bool
  | .name _ | .str _ | .lambda _ => false
  | .ticket _ => true
  | .apply task bindings _ _ =>
      anyHoldsPlaceholder output task || bindingsHoldPlaceholder output bindings
  | .cond condition prototype _ thenBlock elseBlock =>
      anyHoldsPlaceholder output condition ||
        prototype.outputs.any (output thenBlock) ||
        prototype.outputs.any (output elseBlock)
  | .curry none bindings => bindingsHoldPlaceholder output bindings
  | .curry (some task) bindings =>
      anyHoldsPlaceholder output task || bindingsHoldPlaceholder output bindings
termination_by structural term => term

def anyHoldsPlaceholder (output : BlockId → String → Bool) : List Term → Bool
  | [] => false
  | term :: rest => term.holdsPlaceholder output || anyHoldsPlaceholder output rest
termination_by structural terms => terms

def bindingsHoldPlaceholder (output : BlockId → String → Bool) :
    List (String × List Term) → Bool
  | [] => false
  | (_, value) :: rest =>
      anyHoldsPlaceholder output value || bindingsHoldPlaceholder output rest
termination_by structural bindings => bindings

end

end Term

namespace Arena

/-- A placeholder in an output of a block, found through at most `steps` blocks. -/
def outputHoldsPlaceholder (arena : Arena) : Nat → BlockId → String → Bool
  | 0, _, _ => false
  | steps + 1, block, name =>
      match (arena.block? block).bind fun found => found.get? name with
      | some value => Term.anyHoldsPlaceholder (arena.outputHoldsPlaceholder steps) value
      | none => false

def bindingCount (arena : Arena) : Nat :=
  (arena.blocks.toList.flatMap fun block => block.bindings).length

/-- A placeholder in the compound.  The shortest way to one passes no binding twice, so as
many steps as there are bindings find it. -/
def holdsPlaceholder (arena : Arena) (compound : Compound) : Bool :=
  Term.anyHoldsPlaceholder (arena.outputHoldsPlaceholder arena.bindingCount) compound

end Arena

end TicketFlow
