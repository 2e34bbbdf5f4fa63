import TicketFlow.Arena.Placeholders
import TicketFlow.Reduction.Context
import TicketFlow.Schedule.Scheduler

namespace TicketFlow

/-! A running query, advanced by reduction passes between the replies of the backend. -/

structure Query where
  id : QueryId
  consumer : ConsumerId
  context : Context
deriving Repr

inductive Progress where
  | finished (result : Compound)
  /-- Tickets are outstanding; this is what is left so far. -/
  | pending (soFar : Compound)
  /-- A ticket failed; the events of the consumer say which. -/
  | failed
deriving Repr

namespace Query

structure Stepped where
  outcome : Except Halt Progress
  query : Query
  scheduler : Scheduler

def pass (query : Query) (depth : Nat) (scheduler : Scheduler) :
    Except Halt Compound × Query × Scheduler :=
  let passed := query.context.reduce depth scheduler query.consumer query.id
  (passed.outcome, { query with context := passed.context }, passed.source)

/-- Not finished: pending, unless a ticket failed meanwhile. -/
def unfinished (query : Query) (scheduler : Scheduler) (soFar : Compound) : Stepped where
  outcome := .ok (if scheduler.isFailed query.id then .failed else .pending soFar)
  query
  scheduler

/-- A second pass for the tickets that were finished before the first one ended. -/
def settle (query : Query) (depth : Nat) (scheduler : Scheduler) : Stepped :=
  match query.pass depth scheduler with
  | (.error reason, query, scheduler) => { outcome := .error reason, query, scheduler }
  | (.ok result, query, scheduler) =>
      if scheduler.isQueueClear query.id && !query.context.arena.holdsPlaceholder result then
        { outcome := .ok (.finished result), query, scheduler }
      else query.unfinished scheduler result

/-- Reduces the query once, and says whether it is done.  It is done when it waits for
nothing and no placeholder is left in its result. -/
def step (query : Query) (depth : Nat) (scheduler : Scheduler) : Stepped :=
  if scheduler.isFailed query.id then { outcome := .ok .failed, query, scheduler }
  else
    match query.pass depth scheduler with
    | (.error reason, query, scheduler) => { outcome := .error reason, query, scheduler }
    | (.ok result, query, scheduler) =>
        if !scheduler.isQueueClear query.id then query.unfinished scheduler result
        else if query.context.arena.holdsPlaceholder result then
          query.settle depth scheduler
        else { outcome := .ok (.finished result), query, scheduler }

end Query

end TicketFlow
