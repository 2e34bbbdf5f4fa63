import TicketFlow.Data.Sorting
import TicketFlow.Schedule.Event

namespace TicketFlow

/-! The ticket table: which tickets a run has, what they gave, and who waits for them.

A ticket is cached from its first request until it fails, so identical requests
share one execution.  A query is outstanding on the cached tickets without
results that it asked for.  Consumers track the queries they asked for; a query
that no consumer tracks leaves no trace.  The operations are pure: they hand
back the events to deliver.
-/

structure TicketTable where
  run : RunId
  cache : OrderedMap TicketId Ticket := []
  results : OrderedMap TicketId (List Compound) := []
  outstanding : OrderedMap QueryId (List TicketId) := []
  dependents : OrderedMap TicketId (List QueryId) := []
  tracking : OrderedMap ConsumerId (List QueryId) := []
  /-- The queries ended by a failed ticket and still tracked. -/
  failed : List QueryId := []
deriving Repr

structure Requested where
  ticket : Ticket
  /-- The ticket is new and has to be executed. -/
  dispatch : Bool
deriving Repr

namespace TicketTable

def outstandingOf (table : TicketTable) (query : QueryId) : List TicketId :=
  (table.outstanding.get? query).getD []

def dependentsOf (table : TicketTable) (ticket : TicketId) : List QueryId :=
  (table.dependents.get? ticket).getD []

def trackedBy (table : TicketTable) (consumer : ConsumerId) : List QueryId :=
  (table.tracking.get? consumer).getD []

def isTracked (table : TicketTable) (query : QueryId) : Bool :=
  table.tracking.any fun entry => entry.2.contains query

def addDependency (table : TicketTable) (query : QueryId)
    (ticket : TicketId) : TicketTable :=
  { table with
    outstanding := table.outstanding.insert query ((table.outstandingOf query).insert ticket)
    dependents := table.dependents.insert ticket ((table.dependentsOf ticket).insert query) }

def track (table : TicketTable) (consumer : ConsumerId) (query : QueryId) : TicketTable :=
  { table with
    tracking := table.tracking.insert consumer ((table.trackedBy consumer).insert query) }

/-- Records the interest of a query in a ticket.  A ticket of the same identity that is
cached already is used instead, and is waited for only while it has no results. -/
def request (table : TicketTable) (consumer : ConsumerId) (query : QueryId)
    (ticket : Ticket) : Requested × TicketTable :=
  let tracked := table.track consumer query
  match tracked.cache.get? ticket.id with
  | some cached =>
      (⟨cached, false⟩,
        if tracked.results.contains ticket.id then tracked else
          tracked.addDependency query ticket.id)
  | none =>
      (⟨ticket, true⟩,
        { tracked with cache := tracked.cache.insert ticket.id ticket }.addDependency
          query ticket.id)

def trackers (table : TicketTable) (query : QueryId) : List ConsumerId :=
  Sorting.sortOn ConsumerId.number
    ((table.tracking.filter fun entry => entry.2.contains query).map Prod.fst)

def waiting (table : TicketTable) (ticket : TicketId) : List QueryId :=
  Sorting.sortOn QueryId.number (table.dependentsOf ticket)

/-- One event for each waiting query and each consumer that tracks it. -/
def deliveries (table : TicketTable) (ticket : TicketId)
    (event : QueryId → QueryEvent) : Deliveries :=
  (table.waiting ticket).flatMap fun query =>
    (table.trackers query).map fun consumer => (consumer, event query)

def removeDependent (query : QueryId) (dependents : OrderedMap TicketId (List QueryId))
    (ticket : TicketId) : OrderedMap TicketId (List QueryId) :=
  match dependents.get? ticket with
  | none => dependents
  | some queries =>
      match queries.filter fun other => other != query with
      | [] => dependents.erase ticket
      | remaining => dependents.insert ticket remaining

def forget (table : TicketTable) (query : QueryId) : TicketTable :=
  { table with
    outstanding := table.outstanding.erase query
    dependents := (table.outstandingOf query).foldl (removeDependent query) table.dependents }

/-- Marks a query failed; it waits for nothing any more. -/
def failQuery (table : TicketTable) (query : QueryId) : TicketTable :=
  let forgotten := table.forget query
  { forgotten with failed := forgotten.failed.insert query }

/-- Fails every query that waits for the ticket.  The ticket leaves the cache, so that an
identical request executes it anew. -/
def fail (table : TicketTable) (failure : Failure) : Deliveries × TicketTable :=
  if table.cache.contains failure.ticket then
    let evicted := { table with
      cache := table.cache.erase failure.ticket
      results := table.results.erase failure.ticket
      dependents := table.dependents.erase failure.ticket }
    (table.deliveries failure.ticket fun query => .queryFailed query failure,
      (table.waiting failure.ticket).foldl failQuery evicted)
  else ([], table)

/-- The failure of a ticket whose execution gave the wrong number of outputs. -/
def wrongCount (ticket : TicketId) (cached : Ticket) (count : Nat) : Failure where
  ticket
  lambda := cached.lambda.name
  script := cached.script
  stdout := ""
  stderr := "expected " ++ toString cached.arity ++
    " output(s), backend returned " ++ toString count

def clearOne (ticket : TicketId) (outstanding : OrderedMap QueryId (List TicketId))
    (query : QueryId) : OrderedMap QueryId (List TicketId) :=
  outstanding.modify query fun tickets => tickets.filter fun other => other != ticket

/-- Stores the outputs of a ticket and tells every query that waits for it.  Replies
for unknown tickets and repeated replies count for nothing; a wrong number of
outputs fails the ticket. -/
def finish (table : TicketTable) (ticket : TicketId) (outputs : List Compound)
    (report : List ReportEntry) : Deliveries × TicketTable :=
  match table.cache.get? ticket with
  | none => ([], table)
  | some cached =>
      if table.results.contains ticket then ([], table)
      else if outputs.length = cached.arity then
        (table.deliveries ticket fun query => .ticketFinished query ticket report,
          { table with
            results := table.results.insert ticket outputs
            outstanding := (table.waiting ticket).foldl (clearOne ticket) table.outstanding
            dependents := table.dependents.erase ticket })
      else table.fail (wrongCount ticket cached outputs.length)

def reply (table : TicketTable) : Reply → Deliveries × TicketTable
  | .finished ticket outputs report => table.finish ticket outputs report
  | .failed failure => table.fail failure

def dropUntracked (table : TicketTable) (query : QueryId) : TicketTable :=
  if table.isTracked query then table
  else
    let forgotten := table.forget query
    { forgotten with failed := forgotten.failed.filter fun other => other != query }

def release (table : TicketTable) (consumer : ConsumerId)
    (query : QueryId) : TicketTable :=
  { table with
    tracking := table.tracking.modify consumer fun queries =>
      queries.filter fun other => other != query }.dropUntracked query

def detach (table : TicketTable) (consumer : ConsumerId) : TicketTable :=
  (table.trackedBy consumer).foldl dropUntracked
    { table with tracking := table.tracking.erase consumer }

def isFailed (table : TicketTable) (query : QueryId) : Bool :=
  table.failed.contains query

/-- The query waits for nothing and none of its tickets failed. -/
def isQueueClear (table : TicketTable) (query : QueryId) : Bool :=
  !table.isFailed query && (table.outstandingOf query).isEmpty

def output? (table : TicketTable) (ticket : TicketId) : Nat → Option Compound
  | 0 => none
  | index + 1 => (table.results.get? ticket).bind fun outputs => outputs[index]?

def cached? (table : TicketTable) (ticket : TicketId) : Option Ticket :=
  table.cache.get? ticket

def outstandingCount (table : TicketTable) (query : QueryId) : Nat :=
  (table.outstandingOf query).length

def cacheSize (table : TicketTable) : Nat :=
  table.cache.length

end TicketTable

end TicketFlow
