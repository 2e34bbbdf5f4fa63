import TicketFlow.Reduction.Combination
import TicketFlow.Reduction.RestCapture

namespace TicketFlow

/-! Expansion of applications whose task and arguments are reduced.

An application comes to a sequence of parts, worked off in order: invocations,
applications left for a later pass, and errors, which end the work.  Several
tasks are expanded one after the other unless the first of them is correlated:
then they take part in one combination.
-/

inductive Part where
  /-- Not all is known yet: the application stays. -/
  | keep (apply : Apply)
  | invoke (invocation : Invocation)
  | reject (error : ReduceError)
deriving Repr

namespace Apply

/-- The parts of one combination.  While excess arguments wait for capture there is none. -/
def combine (apply : Apply) : List Part :=
  if apply.rest then [.keep apply]
  else
    match Combination.ofApply apply with
    | .ok combination => combination.invocations.map .invoke
    | .error (.notDerivable _) => [.keep apply]
    | .error (.rejected error) => [.reject error]

def expandTask (apply : Apply) (task : Term) : List Part :=
  let single := { apply with task := [task] }.captureRest
  match task with
  | .lambda _ => single.combine
  | _ => [.keep single]

def expand (apply : Apply) : List Part :=
  match apply.task with
  | [] => []
  | [task] => apply.expandTask task
  | .lambda first :: _ =>
      if first.prototype.correlated then apply.combine
      else if Compound.isNormal apply.task then apply.task.flatMap apply.expandTask
      else [.keep apply]
  | _ => [.keep apply]

end Apply

end TicketFlow
