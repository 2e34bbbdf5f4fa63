import TicketFlow.Arena.Collect
import TicketFlow.Context
import TicketFlow.Reduction.Reduce

namespace TicketFlow

/-! One pass over all targets of a query. -/

variable {σ : Type}

def Pass.start (consumer : ConsumerId) (query : QueryId) (source : σ) (arena : Arena)
    (root : BlockId) : Pass σ :=
  { consumer, query, source, arena, root }

variable [TicketSource σ]

def Reduction.reduceTargets (depth : Nat) : List Compound → PassM σ (List Compound)
  | [] => pure []
  | target :: rest => do
      let head ← reduce depth target
      let tail ← reduceTargets depth rest
      pure (head :: tail)

structure Passed (σ : Type) where
  outcome : Except Halt Compound
  context : Context
  source : σ

/-- Reduces every target once.  If that succeeds the results become the targets, and
blocks that nothing refers to any more are released; otherwise the targets stay. -/
def Context.reduce (context : Context) (depth : Nat) (source : σ) (consumer : ConsumerId)
    (query : QueryId) : Passed σ :=
  match Reduction.reduceTargets depth context.targets
      (Pass.start consumer query source context.arena context.root) with
  | (.ok targets, pass) =>
      { outcome := .ok targets.flatten
        context :=
          { context with targets, arena := (pass.arena.collect [context.root] targets).2 }
        source := pass.source }
  | (.error reason, pass) =>
      { outcome := .error reason, context := { context with arena := pass.arena },
        source := pass.source }

end TicketFlow
