import TicketFlow.Invocation
import TicketFlow.Report

namespace TicketFlow

/-! What a backend answers and what a consumer is told about it. -/

structure Failure where
  ticket : TicketId
  lambda : String
  script : String
  stdout : String
  stderr : String
deriving Repr

inductive Reply where
  | finished (ticket : TicketId) (outputs : List Compound) (report : List ReportEntry)
  | failed (failure : Failure)
deriving Repr

def Reply.ticket : Reply → TicketId
  | .finished ticket _ _ => ticket
  | .failed failure => failure.ticket

inductive QueryEvent where
  | ticketFinished (query : QueryId) (ticket : TicketId) (report : List ReportEntry)
  | queryFailed (query : QueryId) (failure : Failure)
deriving Repr

def QueryEvent.query : QueryEvent → QueryId
  | .ticketFinished query _ _ => query
  | .queryFailed query _ => query

/-- Events with their addressees, in the order of delivery. -/
abbrev Deliveries := List (ConsumerId × QueryEvent)

end TicketFlow
