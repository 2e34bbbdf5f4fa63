import TicketFlow.Hub
import TicketFlow.Schedule.Backend

namespace TicketFlow

/-! The whole run: front ends, scheduler and a backend that executes what is dispatched. -/

structure Host where
  hub : Hub
  backend : Backend
  executed : List TicketId := []
deriving Repr

structure Conclusion where
  /-- The last notice about the query; there is none for a query that was not taken. -/
  notice : Option Notice
  dispatched : List TicketId
deriving Repr

namespace Host

def spawnAll : Nat → Hub → Hub
  | 0, hub => hub
  | count + 1, hub => (spawnAll count hub).spawn ⟨count + 1⟩

def start (run : RunId) (frontEnds : Nat) (backend : Backend) : Host where
  hub := (spawnAll frontEnds (Hub.start run)).settle
  backend

def executeReady (host : Host) : Host :=
  let (ready, scheduler) := host.hub.scheduler.takeReady
  let tickets := ready.map Dispatch.ticket
  let replied :=
      (tickets.map host.backend.execute).foldl Hub.reply { host.hub with scheduler }
  { host with hub := replied.settle, executed := host.executed ++ tickets.map Ticket.id }

/-- Goes on until nothing is ready any more, for at most so many rounds. -/
def runWithin : Nat → Host → Host
  | 0, host => host
  | rounds + 1, host =>
      if host.hub.scheduler.ready.isEmpty then host else runWithin rounds host.executeReady

def ampleRounds : Nat := 1000000000

def terminalNotice? (host : Host) (index : Nat) (query : QueryId) : Option Notice :=
  host.hub.frontEnds[index]?.bind fun frontEnd =>
    (frontEnd.notices.find? fun told => told.1 == query && told.2.isTerminal).map Prod.snd

def submit (host : Host) (index : Nat) (context : Context) : Conclusion × Host :=
  let (answer, hub) := host.hub.submit index context
  let idle := runWithin ampleRounds { host with hub := hub.settle }
  let notice := match answer with
    | .ok query => idle.terminalNotice? index query
    | .error _ => none
  ({ notice, dispatched := idle.executed.drop host.executed.length }, idle)

def isCached (host : Host) (ticket : TicketId) : Bool :=
  (host.hub.scheduler.table.cached? ticket).isSome

end Host

end TicketFlow
