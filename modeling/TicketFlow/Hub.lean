import TicketFlow.FrontEnd

namespace TicketFlow

/-! Any number of front ends over one scheduler.

Everything that happens is one of a few moves: a front end starts, stops, takes
a submission or takes the next event from its mailbox, or the scheduler takes
replies of the backend.  A front end whose mailbox is closed stops once it has
read what is in it.  Front ends that have something to do queue up, and each
does all of it before the next one acts.
-/

structure Hub where
  scheduler : Scheduler
  frontEnds : List FrontEnd := []
  /-- The front ends that have something to do, in the order in which that came up. -/
  agenda : List Nat := []
  /-- The ids of all queries so far, the latest first. -/
  issued : List QueryId := []
  depth : Nat := Reduction.ampleDepth
deriving Repr

/-- Why a front end does not take what it is sent. -/
inductive SendError where
  | stopped
  /-- It ended over what it was sent. -/
  | unanswered
deriving DecidableEq, Repr

def SendError.message : SendError → String
  | .stopped => "repl control channel closed"
  | .unanswered => "repl response channel closed"

namespace Hub

/-- An empty hub whose reductions go as deep as this. -/
def begin (run : RunId) (depth : Nat) : Hub where
  scheduler := Scheduler.start run
  depth

def start (run : RunId) : Hub :=
  begin run Reduction.ampleDepth

def running? (hub : Hub) (index : Nat) : Option FrontEnd :=
  hub.frontEnds[index]?.filter FrontEnd.isRunning

/-- A front end has an event to take, or lost its mailbox. -/
def isBusy (hub : Hub) (index : Nat) : Bool :=
  (hub.running? index).any fun frontEnd =>
    !(hub.scheduler.mailbox frontEnd.mailbox).events.isEmpty ||
      hub.scheduler.isClosed frontEnd.mailbox

/-- Brings the agenda up to date: who has nothing left to do leaves it, and
who has joins its end. -/
def refresh (hub : Hub) : Hub :=
  let waiting := hub.agenda.filter hub.isBusy
  let joining := (List.range hub.frontEnds.length).filter fun index =>
    hub.isBusy index && !waiting.contains index
  { hub with agenda := waiting ++ joining }

def after (hub : Hub) (index : Nat) (acted : FrontEnd × Scheduler) : Hub :=
  { hub with scheduler := acted.2, frontEnds := hub.frontEnds.set index acted.1 }.refresh

/-- Starts a front end.  Another one of the same consumer loses its mailbox. -/
def spawn (hub : Hub) (consumer : ConsumerId) : Hub :=
  let (mailbox, scheduler) := hub.scheduler.attach consumer
  let frontEnd : FrontEnd := { consumer, mailbox }
  { hub with scheduler, frontEnds := hub.frontEnds ++ [frontEnd] }.refresh

/-- Submits a query under an id that is not in use. -/
def submitAs (hub : Hub) (index : Nat) (id : QueryId) (context : Context) :
    Except SendError QueryId × Hub :=
  match hub.running? index with
  | none => (.error .stopped, hub)
  | some frontEnd =>
      let acted := frontEnd.submit hub.depth hub.scheduler id context
      (if acted.1.isRunning then .ok id else .error .unanswered,
        { hub.after index acted with issued := id :: hub.issued })

/-- Submits a query under the next number. -/
def submit (hub : Hub) (index : Nat) (context : Context) :
    Except SendError QueryId × Hub :=
  hub.submitAs index ⟨hub.issued.length⟩ context

def shutdown (hub : Hub) (index : Nat) : Except SendError Unit × Hub :=
  match hub.running? index with
  | none => (.error .stopped, hub)
  | some frontEnd => (.ok (), hub.after index (frontEnd.stop hub.scheduler))

def closeNotices (hub : Hub) (index : Nat) : Hub :=
  { hub with
    frontEnds := hub.frontEnds.modify index
      fun frontEnd => { frontEnd with isHeard := false } }

def deliver (hub : Hub) (delivery : ConsumerId × QueryEvent) : Hub :=
  { hub with scheduler := hub.scheduler.deliver delivery }.refresh

/-- Takes a reply of the backend.  Front ends queue up in the order of the deliveries. -/
def reply (hub : Hub) (reply : Reply) : Hub :=
  let (deliveries, scheduler) := hub.scheduler.accept reply
  deliveries.foldl deliver { hub with scheduler }

@[simp] theorem scheduler_refresh (hub : Hub) :
    hub.refresh.scheduler = hub.scheduler := rfl

theorem scheduler_foldl_deliver (deliveries : Deliveries) (hub : Hub) :
    (deliveries.foldl deliver hub).scheduler =
      deliveries.foldl Scheduler.deliver hub.scheduler := by
  induction deliveries generalizing hub with
  | nil => rfl
  | cons delivery rest ih => exact ih (hub.deliver delivery)

/-- Who queues up makes no difference to the scheduler. -/
theorem scheduler_reply (hub : Hub) (reply : Reply) :
    (hub.reply reply).scheduler = hub.scheduler.reply reply :=
  scheduler_foldl_deliver _ _

/-- Lets a front end take its next event, or stop for want of a mailbox. -/
def advance? (hub : Hub) (index : Nat) : Option Hub :=
  (hub.running? index).bind fun frontEnd =>
    match hub.scheduler.takeEvent? frontEnd.mailbox with
    | some (event, scheduler) =>
        some (hub.after index (frontEnd.handle hub.depth scheduler event))
    | none =>
        if hub.scheduler.isClosed frontEnd.mailbox then
          some (hub.after index (frontEnd.stop hub.scheduler))
        else none

/-- Exactly the busy front ends can act. -/
theorem isSome_advance? (hub : Hub) (index : Nat) :
    (hub.advance? index).isSome = hub.isBusy index := by
  cases found : hub.running? index with
  | none => simp [advance?, isBusy, found]
  | some frontEnd =>
      cases events : (hub.scheduler.mailbox frontEnd.mailbox).events with
      | nil =>
          cases closed : hub.scheduler.isClosed frontEnd.mailbox <;>
            simp [advance?, isBusy, found, Scheduler.takeEvent?, events, closed]
      | cons event rest => simp [advance?, isBusy, found, Scheduler.takeEvent?, events]

def next? (hub : Hub) : Option Hub :=
  hub.agenda.head?.bind hub.advance?

/-- A bound on the moves to come: events that wait, and front ends that may stop. -/
def work (hub : Hub) : Nat :=
  (hub.scheduler.mailboxes.flatMap fun mailbox => mailbox.events).length +
    hub.frontEnds.length

def settleWithin : Nat → Hub → Hub
  | 0, hub => hub
  | moves + 1, hub =>
      match hub.next? with
      | none => hub
      | some next => settleWithin moves next

/-- Lets all front ends act until none has anything to do.  Each move takes an event, of
which none are added, or stops a front end. -/
def settle (hub : Hub) : Hub :=
  settleWithin hub.work hub

end Hub

end TicketFlow
