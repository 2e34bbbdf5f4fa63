import TicketFlow.Proofs.Reduction.Contract
import TicketFlow.Proofs.Reduction.Settlement
import TicketFlow.Proofs.Session.Basic

namespace TicketFlow

/-! A scheduler that attends to a query.

The consumer of the query is there and takes its events, nothing the query
waits for has failed, and all outputs are strings.  Such a scheduler loses
sight of no placeholder: its ticket is waited for until its outputs are stored.
-/

namespace Scheduler

/-- The consumer of the query tracks whatever the query waits for, and holds its mailbox. -/
structure Attends (consumer : ConsumerId) (query : QueryId)
    (scheduler : Scheduler) : Prop where
  consistent : scheduler.table.Consistent
  created : ∀ {id cached}, scheduler.table.cache.get? id = some cached →
    ∃ lambda bindings, cached = Ticket.create scheduler.run lambda bindings
  literal :
    ∀ {id outputs}, scheduler.table.results.get? id = some outputs →
    ∀ value ∈ outputs, ∀ term ∈ value, ∃ text, term = .str text
  tracked :
    ∀ {id}, id ∈ scheduler.table.outstandingOf query →
    query ∈ scheduler.table.trackedBy consumer
  unfailed : query ∉ scheduler.table.failed
  heard :
    ∃ id, scheduler.addresses.get? consumer = some id ∧
    (scheduler.mailbox id).isHeld = true

/-- The placeholder belongs to a ticket of the run that the query waits
for, or that is finished. -/
structure Traces (run : RunId) (query : QueryId) (scheduler : Scheduler)
    (placeholder : Placeholder) : Prop where
  issued :
    ∃ lambda bindings, placeholder.ticket = (Ticket.create run lambda bindings).id ∧
    1 ≤ placeholder.channel ∧ placeholder.channel ≤ lambda.prototype.arity
  kept : placeholder.ticket ∈ scheduler.table.outstandingOf query ∨
    ∃ outputs, scheduler.table.results.get? placeholder.ticket = some outputs

/-- Nothing that the query waits for, and nothing that is finished, is lost. -/
def Retains (query : QueryId) (before after : TicketTable) : Prop :=
  ∀ id,
    (id ∈ before.outstandingOf query ∨ ∃ outputs, before.results.get? id = some outputs) →
    id ∈ after.outstandingOf query ∨ ∃ outputs, after.results.get? id = some outputs

variable {scheduler after : Scheduler} {consumer asker : ConsumerId}
  {query asked : QueryId} {run : RunId} {before : TicketTable} {placeholder : Placeholder}

theorem Retains.refl (query : QueryId) (table : TicketTable) :
    Retains query table table :=
  fun _ => id

theorem Retains.trans {first second third : TicketTable}
    (left : Retains query first second) (right : Retains query second third) :
    Retains query first third :=
  fun id given => right id (left id given)

theorem Traces.retained (traces : Traces run query scheduler placeholder)
    (retains : Retains query scheduler.table after.table) :
    Traces run query after placeholder :=
  ⟨traces.issued, retains placeholder.ticket traces.kept⟩

/-- What a context has account of is not lost. -/
theorem Retains.accounted {context : Context}
    (retains : Retains query scheduler.table after.table)
    (accounted : context.Accounted (Traces run query scheduler)) :
    context.Accounted (Traces run query after) where
  arena := accounted.arena
  bound stored bound occurs := (accounted.bound stored bound occurs).retained retains
  targets term inside placeholder
    occurs := (accounted.targets term inside placeholder occurs).retained retains

theorem Attends.isFailed_eq_false (attends : scheduler.Attends consumer query) :
    scheduler.isFailed query = false := by
  simpa [isFailed, TicketTable.isFailed] using attends.unfailed

theorem Attends.isQueueClear_iff (attends : scheduler.Attends consumer query) :
    scheduler.isQueueClear query = true ↔ scheduler.table.outstandingOf query = [] := by
  have unfailed : scheduler.table.isFailed query = false := attends.isFailed_eq_false
  simp [isQueueClear, TicketTable.isQueueClear, unfailed]

section Requests

variable {apply : Apply} {lambda : ForeignLambda} {ticket : Ticket}

theorem Attends.granted (attends : scheduler.Attends consumer query)
    (granted : Granted scheduler asker asked apply placeholder after lambda ticket)
    (own : asked = query → asker = consumer) : after.Attends consumer query where
  consistent := by
    rw [granted.table]
    exact attends.consistent.request asker asked ticket
  created := by
    intro id cached found
    have sameRun : after.run = scheduler.run := by
      rw [Scheduler.run, granted.table, TicketTable.run_request, ← Scheduler.run]
    rw [granted.table] at found
    rw [sameRun]
    rcases TicketTable.cache_request found with before | rfl
    · exact attends.created before
    · exact ⟨lambda, apply.bindings, granted.created⟩
  literal := by
    intro id outputs stored
    rw [granted.table, TicketTable.results_request] at stored
    exact attends.literal stored
  tracked := by
    intro id waits
    rw [granted.table] at waits ⊢
    rw [TicketTable.mem_trackedBy_request]
    rcases (TicketTable.mem_outstandingOf_request attends.consistent.toIndexed).mp
        waits with ⟨same, _⟩ | before
    · exact .inl ⟨(own same.symm).symm, same⟩
    · exact .inr (attends.tracked before)
  unfailed := by
    rw [granted.table, TicketTable.failed_request]
    exact attends.unfailed
  heard := by
    obtain ⟨id, addressed, held⟩ := attends.heard
    refine ⟨id, granted.addresses ▸ addressed, ?_⟩
    rw [mailbox, granted.mailboxes, ← mailbox]
    exact held

theorem Granted.retains
    (granted : Granted scheduler asker asked apply placeholder after lambda ticket)
    (indexed : scheduler.table.Indexed) (query : QueryId) :
    Retains query scheduler.table after.table := by
  rintro id (waits | ⟨outputs, stored⟩)
  · rw [granted.table]
    exact .inl ((TicketTable.mem_outstandingOf_request indexed).mpr (.inr waits))
  · rw [granted.table, TicketTable.results_request]
    exact .inr ⟨outputs, stored⟩

/-- The ticket of a request is waited for, unless it is finished. -/
theorem Granted.kept
    (granted : Granted scheduler consumer query apply placeholder after lambda ticket)
    (indexed : scheduler.table.Indexed) :
    placeholder.ticket ∈ after.table.outstandingOf query ∨
      ∃ outputs, after.table.results.get? placeholder.ticket = some outputs := by
  rw [granted.issued, indexed.id_request, granted.table, TicketTable.results_request]
  cases stored : scheduler.table.results.get? ticket.id with
  | none =>
      exact .inl
        ((TicketTable.mem_outstandingOf_request indexed).mpr (.inl ⟨rfl, rfl, stored⟩))
  | some outputs => exact .inr ⟨outputs, rfl⟩

end Requests

section Replies

theorem Attends.mailed (attends : scheduler.Attends consumer query)
    (id : MailboxId) (event : QueryEvent) :
    (scheduler.updateMailbox id fun mailbox =>
      { mailbox with events := mailbox.events ++ [event] }).Attends consumer query := by
  obtain ⟨address, addressed, held⟩ := attends.heard
  refine { attends with heard := ⟨address, addressed, ?_⟩ }
  simp only [mailbox, updateMailbox, List.getElem?_modify] at held ⊢
  by_cases same : id.index = address.index
  · cases stored : scheduler.mailboxes[address.index]? with
    | none => simp [stored] at held
    | some mailbox => simpa [stored, same] using held
  · simpa [same] using held

theorem Attends.detach (attends : scheduler.Attends consumer query) {other : ConsumerId}
    (apart : other ≠ consumer) : (scheduler.detach other).Attends consumer query ∧
      ∀ {id}, id ∈ scheduler.table.outstandingOf query →
        id ∈ (scheduler.table.detach other).outstandingOf query := by
  have consistent := attends.consistent.detach other
  have tracks : query ∈ (scheduler.table.perform (.detach other)).2.trackedBy consumer ↔ _ :=
    TicketTable.mem_trackedBy_perform
  have still {id : TicketId} (waits : id ∈ scheduler.table.outstandingOf query) :
      query ∈ (scheduler.table.detach other).trackedBy consumer :=
    tracks.mpr (.inr ⟨attends.tracked waits, by simp, by simpa using apart⟩)
  refine ⟨?_, fun {id} waits => ?_⟩
  · exact
      { consistent := consistent
        created := by
          intro id cached found
          have cache : (scheduler.detach other).table.cache = scheduler.table.cache :=
            TicketTable.foldl_dropUntracked_frame.1
          have sameRun : (scheduler.detach other).run = scheduler.run :=
            TicketTable.run_detach scheduler.table other
          rw [cache] at found
          rw [sameRun]
          exact attends.created found
        literal := by
          intro id outputs stored
          have results : (scheduler.detach other).table.results = scheduler.table.results :=
            TicketTable.results_detach scheduler.table other
          rw [results] at stored
          exact attends.literal stored
        tracked := fun waits => still (attends.consistent.mem_outstandingOf_detach.mp waits).1
        unfailed := fun failed => attends.unfailed (TicketTable.mem_failed_of_detach failed)
        heard := by
          obtain ⟨id, addressed, held⟩ := attends.heard
          exact ⟨id, (OrderedMap.get?_erase_of_ne apart).trans addressed, held⟩ }
  · refine attends.consistent.mem_outstandingOf_detach.mpr ⟨waits, ?_⟩
    exact (TicketTable.isTracked_iff consistent.distinct).mpr ⟨consumer, still waits⟩

theorem retains_afterCompletion (indexed : before.Indexed)
    (id : TicketId) (outputs : List Compound) (query : QueryId) :
    Retains query before (before.afterCompletion id outputs) := by
  intro other given
  by_cases same : id = other
  · exact .inr ⟨outputs, by simp [TicketTable.afterCompletion, same]⟩
  · rcases given with waits | ⟨stored, found⟩
    · exact .inl
        ((TicketTable.mem_outstandingOf_afterCompletion indexed).mpr ⟨waits, Ne.symm same⟩)
    · exact .inr ⟨stored,
        by simpa [TicketTable.afterCompletion, OrderedMap.get?_insert, same] using found⟩

theorem Attends.afterCompletion (attends : scheduler.Attends consumer query)
    {id : TicketId} {cached : Ticket} {outputs : List (List String)}
    (known : scheduler.table.cache.get? id = some cached)
    (counted : (outputs.map Compound.strs).length = cached.arity) :
    ({ scheduler with
        table := scheduler.table.afterCompletion id (outputs.map Compound.strs) } :
      Scheduler).Attends consumer query where
  consistent := attends.consistent.afterCompletion known counted
  created := attends.created
  literal := by
    intro other stored found value member term inside
    have inserted :
        (scheduler.table.results.insert id (outputs.map Compound.strs)).get? other =
          some stored := found
    rw [OrderedMap.get?_insert] at inserted
    split at inserted
    · obtain rfl := Option.some.inj inserted
      obtain ⟨values, _, rfl⟩ := List.mem_map.mp member
      obtain ⟨text, _, rfl⟩ := List.mem_map.mp inside
      exact ⟨text, rfl⟩
    · exact attends.literal inserted value member term inside
  tracked waits :=
    attends.tracked
      ((TicketTable.mem_outstandingOf_afterCompletion attends.consistent.toIndexed).mp waits).1
  unfailed := attends.unfailed
  heard := attends.heard

/-- Delivering events to the other consumers does not concern the query. -/
theorem Attends.deliver (attends : scheduler.Attends consumer query)
    (deliveries : Deliveries) :
    (deliveries.foldl deliver scheduler).Attends consumer query ∧
      (deliveries.foldl deliver scheduler).run = scheduler.run ∧
      Retains query scheduler.table (deliveries.foldl deliver scheduler).table := by
  let holds (later : Scheduler) : Prop :=
    later.Attends consumer query ∧
      later.run = scheduler.run ∧ Retains query scheduler.table later.table
  have mailed {later : Scheduler} {id : MailboxId} {event : QueryEvent}
      (given : holds later) : holds (later.updateMailbox id
      fun mailbox => { mailbox with events := mailbox.events ++ [event] }) :=
    ⟨given.1.mailed id event, given.2⟩
  have detached {later : Scheduler} {other : ConsumerId} {id : MailboxId}
      (given : holds later) (addressed : later.addresses.get? other = some id)
      (unheld : (later.mailbox id).isHeld = false) : holds (later.detach other) := by
    obtain ⟨attends, sameRun, retains⟩ := given
    have apart : other ≠ consumer := by
      rintro rfl
      obtain ⟨address, found, held⟩ := attends.heard
      obtain rfl := Option.some.inj (addressed.symm.trans found)
      simp [unheld] at held
    obtain ⟨stays, waiting⟩ := attends.detach apart
    refine ⟨stays, (TicketTable.run_detach later.table other).trans sameRun, retains.trans ?_⟩
    rintro id (waits | ⟨outputs, stored⟩)
    · exact .inl (waiting waits)
    · have results : (later.detach other).table.results = later.table.results :=
        TicketTable.results_detach later.table other
      exact .inr ⟨outputs, by rw [results]; exact stored⟩
  exact foldl_deliver mailed detached ⟨attends, rfl, Retains.refl query scheduler.table⟩

theorem Attends.complete (attends : scheduler.Attends consumer query)
    {id : TicketId} {outputs : List (List String)}
    (counted : ∀ cached, scheduler.table.cache.get? id = some cached →
      outputs.length = cached.arity) (report : List ReportEntry) :
    (scheduler.reply (.finished id (outputs.map Compound.strs) report)).Attends consumer
      query ∧ (scheduler.reply (.finished id (outputs.map Compound.strs) report)).run =
      scheduler.run ∧ Retains query scheduler.table
      (scheduler.reply (.finished id (outputs.map Compound.strs) report)).table := by
  have counted : ∀ cached, scheduler.table.cache.get? id = some cached →
      (outputs.map Compound.strs).length = cached.arity := by simpa using counted
  rw [reply_eq]
  obtain answer | ⟨deliveries, answer, cached, known, _⟩ :=
    TicketTable.reply_counted report counted
  · rw [answer]
    exact attends.deliver []
  · rw [answer]
    obtain ⟨stays, sameRun, retains⟩ :=
      (attends.afterCompletion known (counted cached known)).deliver deliveries
    exact ⟨stays, sameRun,
      (retains_afterCompletion attends.consistent.toIndexed id _ query).trans retains⟩

end Replies

section Passes

theorem channel_of_output? {prototype : Prototype} {channel : Nat}
    {output : String} (found : prototype.output? channel = some output) :
    1 ≤ channel ∧ channel ≤ prototype.arity := by
  cases channel with
  | zero => simp [Prototype.output?] at found
  | succ index =>
      obtain ⟨within, _⟩ := List.getElem?_eq_some_iff.mp found
      exact ⟨Nat.le_add_left 1 index, within⟩

/-- A pass of the query gets only placeholders of tickets that the query waits for,
or that are finished. -/
theorem accounts_attends (run : RunId) (consumer : ConsumerId) (query : QueryId) :
    Accounts consumer query
      (fun scheduler : Scheduler => scheduler.Attends consumer query ∧ scheduler.run = run)
      (Traces run query) where
  request := by
    rintro scheduler after invocation output placeholder ⟨attends, rfl⟩ given requested
    obtain ⟨lambda, ticket, granted⟩ := granted_of_request requested
    have foreign : invocation.lambda = .foreign lambda :=
      Invocation.lambda_of_foreignTask granted.task
    have indexed := attends.consistent.toIndexed
    have sameRun : after.run = scheduler.run := by
      rw [Scheduler.run, granted.table, TicketTable.run_request, ← Scheduler.run]
    refine ⟨⟨attends.granted granted fun _ => rfl, sameRun⟩,
      ⟨⟨lambda, invocation.bindings, ?_, ?_⟩, granted.kept indexed⟩, fun other traces =>
      traces.retained (granted.retains indexed query), fun id channel => ?_⟩
    · rw [granted.issued, indexed.id_request, granted.created]
      rfl
    · rw [granted.channel]
      exact channel_of_output? (foreign ▸ given)
    · change after.table.output? id channel = scheduler.table.output? id channel
      cases channel with
      | zero => rfl
      | succ index =>
          simp only [TicketTable.output?, granted.table, TicketTable.results_request]
  read holds same := same ▸ ⟨holds, fun _ => id, fun _ _ => rfl⟩
  literal := by
    rintro scheduler id channel value ⟨attends, _⟩ found
    change scheduler.table.output? id channel = some value at found
    cases channel with
    | zero => simp [TicketTable.output?] at found
    | succ index =>
        obtain ⟨outputs, stored, chosen⟩ := Option.bind_eq_some_iff.mp found
        exact attends.literal stored value (List.mem_of_getElem? chosen)

end Passes

end Scheduler

end TicketFlow
