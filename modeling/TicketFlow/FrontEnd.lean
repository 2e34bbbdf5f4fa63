import TicketFlow.Query

namespace TicketFlow

/-! Front ends: consumers that run queries and tell a listener what becomes of them.

A front end steps a query when it is submitted, and again whenever one of its
tickets is finished and no other is outstanding.  A query is retired when it is
finished, failed or rejected; the notice of that is the last one about it.
-/

inductive Notice where
  | ticketFinished (ticket : TicketId) (report : List ReportEntry)
  | queryFinished (result : Compound)
  | queryFailed (failure : Failure)
  | queryRejected (error : ReduceError)
deriving Repr

def Notice.isTerminal : Notice → Bool
  | .ticketFinished _ _ => false
  | .queryFinished _ | .queryFailed _ | .queryRejected _ => true

structure FrontEnd where
  consumer : ConsumerId
  mailbox : MailboxId
  queries : OrderedMap QueryId Query := []
  /-- Submissions and events are still taken. -/
  isRunning : Bool := true
  isHeard : Bool := true
  /-- Everything that was told while somebody listened, oldest first. -/
  notices : List (QueryId × Notice) := []
deriving Repr

namespace FrontEnd

def runs (frontEnd : FrontEnd) (query : QueryId) : Bool :=
  frontEnd.queries.contains query

def tell (frontEnd : FrontEnd) (query : QueryId) (notice : Notice) : FrontEnd :=
  if frontEnd.isHeard then
    { frontEnd with notices := frontEnd.notices ++ [(query, notice)] }
  else frontEnd

/-- Drops a query, and with it the interest of the consumer in it. -/
def retire (frontEnd : FrontEnd) (scheduler : Scheduler) (query : QueryId) :
    FrontEnd × Scheduler :=
  ({ frontEnd with queries := frontEnd.queries.erase query },
    scheduler.release frontEnd.consumer query)

def conclude (frontEnd : FrontEnd) (scheduler : Scheduler) (query : QueryId)
    (notice : Notice) : FrontEnd × Scheduler :=
  let (retired, scheduler) := frontEnd.retire scheduler query
  (retired.tell query notice, scheduler)

/-- The end of a front end that a faulty query took with it.  The scheduler is not told;
it notices when it has something to deliver. -/
def crash (frontEnd : FrontEnd) (scheduler : Scheduler) : FrontEnd × Scheduler :=
  ({ frontEnd with queries := [], isRunning := false },
    scheduler.abandon frontEnd.mailbox)

def stop (frontEnd : FrontEnd) (scheduler : Scheduler) : FrontEnd × Scheduler :=
  ({ frontEnd with queries := [], isRunning := false },
    (scheduler.abandon frontEnd.mailbox).detach frontEnd.consumer)

/-- Steps a query.  The news of a failed ticket comes as an event of its own. -/
def step (frontEnd : FrontEnd) (depth : Nat) (scheduler : Scheduler) (query : Query) :
    FrontEnd × Scheduler :=
  let stepped := query.step depth scheduler
  let updated :=
      { frontEnd with queries := frontEnd.queries.insert query.id stepped.query }
  match stepped.outcome with
  | .ok (.pending _) | .ok .failed => (updated, stepped.scheduler)
  | .ok (.finished result) =>
      updated.conclude stepped.scheduler query.id (.queryFinished result)
  | .error (.rejected error) =>
      updated.conclude stepped.scheduler query.id (.queryRejected error)
  | .error (.fault _) | .error .exhausted => updated.crash stepped.scheduler

def submit (frontEnd : FrontEnd) (depth : Nat) (scheduler : Scheduler) (id : QueryId)
    (context : Context) : FrontEnd × Scheduler :=
  frontEnd.step depth scheduler { id, consumer := frontEnd.consumer, context }

/-- Takes note of an event; events about retired queries count for nothing. -/
def handle (frontEnd : FrontEnd) (depth : Nat) (scheduler : Scheduler) :
    QueryEvent → FrontEnd × Scheduler
  | .ticketFinished id ticket report =>
      match frontEnd.queries.get? id with
      | none => (frontEnd, scheduler)
      | some query =>
          let told := frontEnd.tell id (.ticketFinished ticket report)
          if scheduler.isQueueClear id then told.step depth scheduler query else
            (told, scheduler)
  | .queryFailed id failure =>
      if frontEnd.runs id then frontEnd.conclude scheduler id (.queryFailed failure)
      else (frontEnd, scheduler)

end FrontEnd

end TicketFlow
