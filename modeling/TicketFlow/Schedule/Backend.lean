import TicketFlow.Schedule.Event
import TicketFlow.Text.Duration

namespace TicketFlow

/-! A backend that answers tickets by script.

Each foreign lambda has a script under its name.  Every execution takes the same
time and fails if that is longer than the limit.
-/

inductive Script where
  | outputs (values : List Compound)
  /-- Every output is the argument of this name, or nil if there is none. -/
  | echo (param : String)
  | fail (stdout stderr : String)
deriving Repr

structure Backend where
  scripts : OrderedMap String Script := []
  delay : Nat := 0
  limit : Nat
deriving Repr

namespace Backend

def failure (ticket : Ticket) (stdout stderr : String) : Reply :=
  .failed
    { ticket := ticket.id
      lambda := ticket.lambda.name
      script := ticket.script
      stdout
      stderr }

/-- An echo answers with the same value for every declared output. -/
def echoed (ticket : Ticket) (param : String) : List Compound :=
  List.replicate ticket.arity ((ticket.bindings.get? param).getD [])

def execute (backend : Backend) (ticket : Ticket) : Reply :=
  if backend.limit < backend.delay then
    failure ticket "" ("scripted timed out after " ++ Text.duration backend.limit)
  else
    match backend.scripts.get? ticket.lambda.name with
    | some (.outputs values) => .finished ticket.id values []
    | some (.echo param) => .finished ticket.id (echoed ticket param) []
    | some (.fail stdout stderr) => failure ticket stdout stderr
    | none =>
        failure ticket "" ("no script registered for lambda '" ++ ticket.lambda.name ++ "'")

/-- Every execution ends in one reply, for the ticket that was executed. -/
@[simp] theorem ticket_execute (backend : Backend) (ticket : Ticket) :
    (backend.execute ticket).ticket = ticket.id := by
  unfold execute
  split
  · rfl
  · split <;> rfl

end Backend

end TicketFlow
