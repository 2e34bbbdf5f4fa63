import TicketFlow.Schedule.Table
import TicketFlow.TicketSource

namespace TicketFlow

/-! The scheduler: a ticket table between consumers and a backend.

Tickets to execute queue up for the backend; its replies go to the table, and
the events that come of them go to the mailboxes of the consumers.  A consumer
that attaches again gets a new mailbox.  The old one is sent nothing more, and
its holder may still read what it contains.
-/

structure MailboxId where
  index : Nat
deriving DecidableEq, Repr

structure Mailbox where
  events : List QueryEvent := []
  isHeld : Bool := true
deriving Repr, Inhabited

/-- A ticket to execute, with the query that asked for it first. -/
structure Dispatch where
  query : QueryId
  ticket : Ticket
deriving Repr

structure Scheduler where
  table : TicketTable
  /-- Where the events of each attached consumer go. -/
  addresses : OrderedMap ConsumerId MailboxId := []
  mailboxes : List Mailbox := []
  ready : List Dispatch := []
  isBackendUp : Bool := true
deriving Repr

namespace Scheduler

def start (run : RunId) : Scheduler where
  table := { run }

def run (scheduler : Scheduler) : RunId :=
  scheduler.table.run

def mailbox (scheduler : Scheduler) (id : MailboxId) : Mailbox :=
  scheduler.mailboxes[id.index]?.getD { isHeld := false }

def isAttached (scheduler : Scheduler) (consumer : ConsumerId) : Bool :=
  scheduler.addresses.contains consumer

def attach (scheduler : Scheduler) (consumer : ConsumerId) : MailboxId × Scheduler :=
  let id : MailboxId := ⟨scheduler.mailboxes.length⟩
  (id, { scheduler with
    addresses := scheduler.addresses.insert consumer id
    mailboxes := scheduler.mailboxes ++ [{}] })

def detach (scheduler : Scheduler) (consumer : ConsumerId) : Scheduler :=
  { scheduler with
    addresses := scheduler.addresses.erase consumer
    table := scheduler.table.detach consumer }

def updateMailbox (scheduler : Scheduler) (id : MailboxId)
    (f : Mailbox → Mailbox) : Scheduler :=
  { scheduler with mailboxes := scheduler.mailboxes.modify id.index f }

/-- Lets go of the receiving end of a mailbox; what it contains is lost. -/
def abandon (scheduler : Scheduler) (id : MailboxId) : Scheduler :=
  scheduler.updateMailbox id fun _ => { isHeld := false }

def takeEvents (scheduler : Scheduler) (id : MailboxId) : List QueryEvent × Scheduler :=
  ((scheduler.mailbox id).events,
    scheduler.updateMailbox id fun mailbox => { mailbox with events := [] })

def takeEvent? (scheduler : Scheduler) (id : MailboxId) :
    Option (QueryEvent × Scheduler) :=
  match (scheduler.mailbox id).events with
  | [] => none
  | event :: events =>
      some (event, scheduler.updateMailbox id fun mailbox => { mailbox with events })

def isClosed (scheduler : Scheduler) (id : MailboxId) : Bool :=
  scheduler.addresses.all fun entry => entry.2 != id

/-- Puts an event into the mailbox of its consumer; one whose mailbox
nobody holds is detached. -/
def deliver (scheduler : Scheduler) (delivery : ConsumerId × QueryEvent) : Scheduler :=
  match scheduler.addresses.get? delivery.1 with
  | none => scheduler
  | some id =>
      if (scheduler.mailbox id).isHeld then
        scheduler.updateMailbox id
          fun mailbox => { mailbox with events := mailbox.events ++ [delivery.2] }
      else scheduler.detach delivery.1

/-- Enters a reply of the backend in the table; what comes of it is still to be delivered. -/
def accept (scheduler : Scheduler) (reply : Reply) : Deliveries × Scheduler :=
  let (deliveries, table) := scheduler.table.reply reply
  (deliveries, { scheduler with table })

def reply (scheduler : Scheduler) (reply : Reply) : Scheduler :=
  let (deliveries, accepted) := scheduler.accept reply
  deliveries.foldl deliver accepted

def dispatch (scheduler : Scheduler) (query : QueryId) (ticket : Ticket) : Scheduler :=
  if scheduler.isBackendUp then
    { scheduler with ready := scheduler.ready ++ [⟨query, ticket⟩] }
  else scheduler

def takeReady (scheduler : Scheduler) : List Dispatch × Scheduler :=
  (scheduler.ready, { scheduler with ready := [] })

def stopBackend (scheduler : Scheduler) : Scheduler :=
  { scheduler with isBackendUp := false, ready := [] }

def request (scheduler : Scheduler) (consumer : ConsumerId) (query : QueryId)
    (apply : Apply) : Except RequestError (Placeholder × Scheduler) :=
  match apply.foreignTask with
  | .error fault => .error fault
  | .ok lambda =>
      if scheduler.isAttached consumer then
        let ticket := Ticket.create scheduler.run lambda apply.bindings
        let (requested, table) := scheduler.table.request consumer query ticket
        let registered := { scheduler with table }
        .ok ({ ticket := requested.ticket.id, channel := apply.channel,
               output := (requested.ticket.outputName? apply.channel).getD "" },
          if requested.dispatch then registered.dispatch query requested.ticket
            else registered)
      else .error (.unknownConsumer consumer)

def release (scheduler : Scheduler) (consumer : ConsumerId)
    (query : QueryId) : Scheduler :=
  { scheduler with table := scheduler.table.release consumer query }

def isQueueClear (scheduler : Scheduler) (query : QueryId) : Bool :=
  scheduler.table.isQueueClear query

def isFailed (scheduler : Scheduler) (query : QueryId) : Bool :=
  scheduler.table.isFailed query

instance : TicketSource Scheduler where
  request := request
  read scheduler id channel := (scheduler.table.output? id channel, scheduler)

end Scheduler

end TicketFlow
