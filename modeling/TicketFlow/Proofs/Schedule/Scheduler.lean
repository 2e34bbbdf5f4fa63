import TicketFlow.Proofs.Schedule.History
import TicketFlow.Schedule.Scheduler

namespace TicketFlow

/-! What the scheduler makes of its table and of its consumers.

Requests and replies reach the table as they are.  Delivering the events that
come of a reply only fills mailboxes and detaches consumers whose mailbox
nobody holds.
-/

namespace TicketTable

variable {table : TicketTable} {id : TicketId} {outputs : List Compound}

section Run

variable {α : Type} {list : List α} {f : TicketTable → α → TicketTable}

theorem run_foldl (kept : ∀ table value, (f table value).run = table.run) :
    (list.foldl f table).run = table.run := by
  induction list generalizing table with
  | nil => rfl
  | cons value rest ih => rw [List.foldl_cons, ih, kept]

theorem run_dropUntracked (table : TicketTable) (query : QueryId) :
    (table.dropUntracked query).run = table.run := by
  unfold dropUntracked
  split <;> rfl

theorem run_request (table : TicketTable) (consumer : ConsumerId) (query : QueryId)
    (ticket : Ticket) : (table.request consumer query ticket).2.run = table.run := by
  rcases table.request_cases consumer query ticket with
    ⟨_, _, _, _, same⟩ | ⟨_, _, _, same⟩ | ⟨_, same⟩ <;> rw [same] <;> rfl

theorem run_reply (table : TicketTable) (reply : Reply) :
    (table.reply reply).2.run = table.run := by
  cases verdict : (table.standingOf reply.ticket).verdict reply with
  | ignored => rw [reply_ignored verdict]
  | accepted =>
      obtain ⟨_, _, _, _, _, _, _, answer⟩ := reply_accepted verdict
      rw [answer]
      rfl
  | fails failure =>
      rw [reply_fails verdict]
      exact run_foldl fun _ _ => rfl

theorem run_detach (table : TicketTable) (consumer : ConsumerId) :
    (table.detach consumer).run = table.run :=
  run_foldl run_dropUntracked

end Run

section Results

theorem results_request (table : TicketTable)
    (consumer : ConsumerId) (query : QueryId) (ticket : Ticket) :
    (table.request consumer query ticket).2.results = table.results := by
  rcases table.request_cases consumer query ticket with
    ⟨_, _, _, _, same⟩ | ⟨_, _, _, same⟩ | ⟨_, same⟩ <;> rw [same] <;> rfl

theorem results_detach (table : TicketTable) (consumer : ConsumerId) :
    (table.detach consumer).results = table.results :=
  foldl_dropUntracked_frame.2.1

/-- What is stored after a reply was stored before, or came with the reply. -/
theorem results_reply {reply : Reply}
    (stored : (table.reply reply).2.results.get? id = some outputs) :
    table.results.get? id = some outputs ∨
      ∃ report, reply = .finished id outputs report := by
  cases verdict : (table.standingOf reply.ticket).verdict reply with
  | ignored =>
      rw [reply_ignored verdict] at stored
      exact .inl stored
  | accepted =>
      obtain ⟨_, given, report, same, _, _, _, answer⟩ := reply_accepted verdict
      rw [answer] at stored
      by_cases named : reply.ticket = id
      · simp only [afterCompletion, named, OrderedMap.get?_insert_self,
          Option.some.injEq] at stored
        rw [named, stored] at same
        exact .inr ⟨report, same⟩
      · simp only [afterCompletion, OrderedMap.get?_insert_of_ne named] at stored
        exact .inl stored
  | fails failure =>
      rw [reply_fails verdict, afterFailure_frame.2.1, OrderedMap.get?_erase] at stored
      split at stored
      · simp at stored
      · exact .inl stored

end Results

section Cache

variable {cached : Ticket}

theorem cache_request {consumer : ConsumerId} {query : QueryId} {ticket : Ticket}
    (found : (table.request consumer query ticket).2.cache.get? id = some cached) :
    table.cache.get? id = some cached ∨ cached = ticket := by
  rcases table.request_cases consumer query ticket with
    ⟨_, _, _, _, same⟩ | ⟨_, _, _, same⟩ | ⟨_, same⟩ <;> rw [same] at found
  · exact .inl found
  · exact .inl found
  · have inserted : (table.cache.insert ticket.id ticket).get? id = some cached := found
    rw [OrderedMap.get?_insert] at inserted
    split at inserted
    · exact .inr (Option.some.inj inserted).symm
    · exact .inl inserted

theorem cache_reply {reply : Reply}
    (found : (table.reply reply).2.cache.get? id = some cached) :
    table.cache.get? id = some cached := by
  cases verdict : (table.standingOf reply.ticket).verdict reply with
  | ignored => rwa [reply_ignored verdict] at found
  | accepted =>
      obtain ⟨_, _, _, _, _, _, _, answer⟩ := reply_accepted verdict
      rw [answer] at found
      exact found
  | fails failure =>
      rw [reply_fails verdict, afterFailure_frame.1, OrderedMap.get?_erase] at found
      split at found
      · simp at found
      · exact found

end Cache

section Failed

theorem mem_failed_of_detach {consumer : ConsumerId} {query : QueryId}
    (failed : query ∈ (table.detach consumer).failed) : query ∈ table.failed :=
  (mem_failed_foldl_dropUntracked.mp failed).1

/-- A completion with the right number of outputs is accepted, or counts for nothing. -/
theorem reply_counted (report : List ReportEntry)
    (counted : ∀ cached, table.cache.get? id = some cached → outputs.length = cached.arity) :
    table.reply (.finished id outputs report) = ([], table) ∨
      ∃ deliveries, table.reply (.finished id outputs report) =
        (deliveries, table.afterCompletion id outputs) ∧
        ∃ cached, table.cache.get? id = some cached ∧ table.results.get? id = none := by
  cases known : table.cache.get? id with
  | none => exact .inl (finish_unknown known)
  | some cached =>
      cases stored : table.results.get? id with
      | some before => exact .inl (finish_repeated stored)
      | none =>
          exact .inr ⟨_, finish_accepted known stored (counted cached known), cached, rfl, rfl⟩

end Failed

/-- A request is answered with the ticket asked for, or with one of the same address. -/
theorem Indexed.id_request (indexed : table.Indexed)
    (consumer : ConsumerId) (query : QueryId) (ticket : Ticket) :
    (table.request consumer query ticket).1.ticket.id = ticket.id := by
  rcases table.request_cases consumer query ticket with
    ⟨_, _, known, _, same⟩ | ⟨_, known, _, same⟩ | ⟨_, same⟩ <;> rw [same]
  · exact indexed.addressed known
  · exact indexed.addressed known

end TicketTable

namespace Scheduler

variable {scheduler after : Scheduler} {consumer : ConsumerId} {query : QueryId}

structure Granted (scheduler : Scheduler) (consumer : ConsumerId) (query : QueryId)
    (apply : Apply) (placeholder : Placeholder) (after : Scheduler)
    (lambda : ForeignLambda) (ticket : Ticket) : Prop where
  task : apply.foreignTask = .ok lambda
  created : ticket = Ticket.create scheduler.run lambda apply.bindings
  issued :
    placeholder.ticket = (scheduler.table.request consumer query ticket).1.ticket.id
  channel : placeholder.channel = apply.channel
  table : after.table = (scheduler.table.request consumer query ticket).2
  addresses : after.addresses = scheduler.addresses
  mailboxes : after.mailboxes = scheduler.mailboxes

theorem dispatch_frame {ticket : Ticket} :
    (scheduler.dispatch query ticket).table = scheduler.table ∧
      (scheduler.dispatch query ticket).addresses = scheduler.addresses ∧
      (scheduler.dispatch query ticket).mailboxes = scheduler.mailboxes := by
  unfold dispatch
  split <;> exact ⟨rfl, rfl, rfl⟩

theorem granted_of_request {apply : Apply} {placeholder : Placeholder}
    (requested : scheduler.request consumer query apply = .ok (placeholder, after)) :
    ∃ lambda ticket,
      Granted scheduler consumer query apply placeholder after lambda ticket := by
  unfold request at requested
  cases task : apply.foreignTask with
  | error fault => simp [task] at requested
  | ok lambda =>
      simp only [task] at requested
      split at requested
      next =>
        simp only [Except.ok.injEq, Prod.mk.injEq] at requested
        obtain ⟨rfl, rfl⟩ := requested
        split
        · exact ⟨lambda, _, task, rfl, rfl, rfl, dispatch_frame.1, dispatch_frame.2.1,
            dispatch_frame.2.2⟩
        · exact ⟨lambda, _, task, rfl, rfl, rfl, rfl, rfl, rfl⟩
      next => simp at requested

section Deliveries

theorem reply_eq (scheduler : Scheduler) (reply : Reply) :
    scheduler.reply reply =
      (scheduler.table.reply reply).1.foldl deliver
        { scheduler with table := (scheduler.table.reply reply).2 } := rfl

/-- Whatever filling mailboxes and detaching consumers does not take away is there after
all events are delivered. -/
theorem foldl_deliver {holds : Scheduler → Prop} {deliveries : Deliveries}
    (mailed : ∀ {scheduler id event}, holds scheduler →
      holds (scheduler.updateMailbox id
        fun mailbox => { mailbox with events := mailbox.events ++ [event] }))
    (detached : ∀ {scheduler consumer id}, holds scheduler →
      scheduler.addresses.get? consumer = some id →
      (scheduler.mailbox id).isHeld = false → holds (scheduler.detach consumer))
    (before : holds scheduler) : holds (deliveries.foldl deliver scheduler) := by
  induction deliveries generalizing scheduler with
  | nil => exact before
  | cons delivery rest ih =>
      refine ih ?_
      unfold deliver
      split
      · exact before
      next id addressed =>
        split
        · exact mailed before
        next unheld => exact detached before addressed (by simpa using unheld)

end Deliveries

end Scheduler

end TicketFlow
