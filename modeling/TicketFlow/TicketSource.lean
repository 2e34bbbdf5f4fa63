import TicketFlow.Invocation

namespace TicketFlow

/-! Where reduction gets its tickets from. -/

/-- Turns invocations into tickets and knows the outputs of those that are finished.

A source is shared: others use it between any two calls, and results come in meanwhile.
So either call may leave it in a new state.
-/
class TicketSource (σ : Type) where
  /-- The placeholder for one invocation, executed when it is seen for the first time. -/
  request : σ → ConsumerId → QueryId → Apply → Except RequestError (Placeholder × σ)
  /-- One output of a ticket, if that is finished. -/
  read : σ → TicketId → Nat → Option Compound × σ

/-- What the source answers when it is asked for the output now. -/
def TicketSource.output? {σ : Type} [TicketSource σ] (source : σ) (id : TicketId)
    (channel : Nat) : Option Compound :=
  (read source id channel).1

end TicketFlow
