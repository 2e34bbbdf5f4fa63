import TicketFlow.Proofs.Reduction.Requests
import TicketFlow.Proofs.Schedule.Execution

namespace TicketFlow

/-! What acts and replies do to the business of one consumer.

A consumer that is attached and holds its mailbox has a seat.  Its seat, its
mailbox and what it tracks are its own: other consumers do not change them, and
a reply only adds events to its mailbox.
-/

namespace TicketTable

variable {table : TicketTable} {id : TicketId} {reply : Reply} {consumer : ConsumerId}
  {event : QueryEvent}

theorem Consistent.mem_deliveries (consistent : table.Consistent)
    {make : QueryId → QueryEvent} : (consumer, event) ∈ table.deliveries id make ↔
      ∃ query, id ∈ table.outstandingOf query ∧ query ∈ table.trackedBy consumer ∧
        event = make query := by
  simp only [deliveries, List.mem_flatMap, List.mem_map, Prod.mk.injEq, mem_waiting_iff,
    ← consistent.related, mem_trackers_iff consistent.distinct]
  constructor
  · rintro ⟨query, waits, _, tracks, rfl, rfl⟩
    exact ⟨query, waits, tracks, rfl⟩
  · rintro ⟨query, waits, tracks, rfl⟩
    exact ⟨query, waits, consumer, tracks, rfl, rfl⟩

/-- The failure of a ticket is told to whoever tracks a query that waits for it. -/
theorem Consistent.mem_reply_fails (consistent : table.Consistent) {failure : Failure}
    (fails : (table.standingOf reply.ticket).verdict reply = .fails failure) :
    (consumer, event) ∈ (table.reply reply).1 ↔
      ∃ query, reply.ticket ∈ table.outstandingOf query ∧
      query ∈ table.trackedBy consumer ∧ event = .queryFailed query failure := by
  rw [reply_fails fails]
  exact consistent.mem_deliveries

/-- So is an accepted completion. -/
theorem Consistent.mem_reply_accepted (consistent : table.Consistent)
    (accepted : (table.standingOf reply.ticket).verdict reply = .accepted) :
    ∃ report, ∀ {consumer event}, (consumer, event) ∈ (table.reply reply).1 ↔
      ∃ query, reply.ticket ∈ table.outstandingOf query ∧ query ∈ table.trackedBy consumer ∧
        event = .ticketFinished query reply.ticket report := by
  obtain ⟨_, _, report, _, _, _, _, answer⟩ := reply_accepted accepted
  rw [answer]
  exact ⟨report, consistent.mem_deliveries⟩

/-- Whoever is told of a reply tracks a query that waits for its ticket. -/
theorem Consistent.concerned_of_mem_reply (consistent : table.Consistent)
    (delivered : (consumer, event) ∈ (table.reply reply).1) :
    reply.ticket ∈ table.outstandingOf event.query ∧
      event.query ∈ table.trackedBy consumer := by
  cases verdict : (table.standingOf reply.ticket).verdict reply with
  | ignored => simp [reply_ignored verdict] at delivered
  | accepted =>
      obtain ⟨report, told⟩ := consistent.mem_reply_accepted verdict
      obtain ⟨query, waits, tracks, rfl⟩ := told.mp delivered
      exact ⟨waits, tracks⟩
  | fails failure =>
      obtain ⟨query, waits, tracks, rfl⟩ :=
        (consistent.mem_reply_fails verdict).mp delivered
      exact ⟨waits, tracks⟩

end TicketTable

namespace Scheduler

/-- Acts that are allowed where they are made lead from one scheduler to the other. -/
def Leads (allowed : Scheduler → Act → Prop) : Scheduler → Scheduler → Prop :=
  Relation.ReflTransGen fun before after =>
    ∃ act, allowed before act ∧ after = before.act act

variable {allowed : Scheduler → Act → Prop} {before after : Scheduler}

/-- What every allowed act keeps is kept by all of them. -/
theorem Leads.keeps {holds : Scheduler → Prop} (leads : Leads allowed before after)
    (kept : ∀ {scheduler act}, holds scheduler → allowed scheduler act →
      holds (scheduler.act act)) (begins : holds before) : holds after := by
  induction leads with
  | refl => exact begins
  | tail _ step ih =>
      obtain ⟨act, given, rfl⟩ := step
      exact kept ih given

theorem leads_act {act : Act} (given : allowed before act) :
    Leads allowed before (before.act act) :=
  Relation.ReflTransGen.single ⟨act, given, rfl⟩

/-- The calls of a pass are allowed if all requests are that leave the failed queries as
they are: reading changes nothing. -/
theorem leads_of_served {consumer : ConsumerId} {query : QueryId}
    (served : Relation.ReflTransGen (TicketSource.Serves consumer query) before after)
    (given : ∀ scheduler apply, scheduler.table.failed = before.table.failed →
      allowed scheduler (.request consumer query apply)) :
    Leads allowed before after ∧ after.table.failed = before.table.failed := by
  induction served with
  | refl => exact ⟨.refl, rfl⟩
  | tail _ last ih =>
      obtain ⟨leads, unchanged⟩ := ih
      cases last with
      | reads => exact ⟨leads, unchanged⟩
      | @grants _ apply placeholder requested =>
          have requested :
              Scheduler.request _ consumer query apply = .ok (placeholder, _) := requested
          obtain ⟨ticket, asked⟩ := asked_of_request requested
          refine ⟨leads.tail ⟨.request consumer query apply, given _ apply unchanged,
            by simp [act, requested]⟩, ?_⟩
          rw [asked.table, TicketTable.failed_request, unchanged]

section Table

variable {scheduler : Scheduler} {act : Act} {consumer : ConsumerId}
  {query : QueryId} {id : TicketId}

/-- An act leaves the table as it is, or performs its own operation on it. -/
theorem table_act (scheduler : Scheduler) (act : Act) :
    (scheduler.act act).table = scheduler.table ∨
      ∃ operation, (scheduler.act act).table = (scheduler.table.perform operation).2 ∧
        ((∃ consumer query apply ticket, act = .request consumer query apply ∧
            operation = .request consumer query ticket) ∨
          (∃ consumer query, act = .release consumer query ∧
            operation = .release consumer query) ∨
          ∃ consumer, act = .detach consumer ∧ operation = .detach consumer) := by
  cases act with
  | attach consumer => exact .inl rfl
  | abandon mailbox => exact .inl rfl
  | take mailbox => exact .inl (scheduler.untouched_take mailbox).2
  | detach consumer => exact .inr ⟨_, rfl, .inr (.inr ⟨consumer, rfl, rfl⟩)⟩
  | release consumer query => exact .inr ⟨_, rfl, .inr (.inl ⟨consumer, query, rfl, rfl⟩)⟩
  | request consumer query apply =>
      cases requested : scheduler.request consumer query apply with
      | error fault => exact .inl (by simp [Scheduler.act, requested])
      | ok granted =>
          obtain ⟨ticket, asked⟩ := asked_of_request requested
          have same : scheduler.act (.request consumer query apply) = granted.2 := by
            simp [Scheduler.act, requested]
          rw [same]
          exact .inr ⟨.request consumer query ticket, asked.table,
            .inl ⟨consumer, query, apply, ticket, rfl, rfl⟩⟩

theorem consistent_act (consistent : scheduler.table.Consistent) :
    (scheduler.act act).table.Consistent :=
  (scheduler.act_cases act consistent).1

/-- Only a request makes a consumer track a query. -/
theorem trackedBy_of_act
    (tracked : query ∈ (scheduler.act act).table.trackedBy consumer) :
    query ∈ scheduler.table.trackedBy consumer ∨
      ∃ apply, act = .request consumer query apply := by
  rcases scheduler.table_act act with same | ⟨operation, same, named⟩ <;>
      rw [same] at tracked
  · exact .inl tracked
  · rcases TicketTable.mem_trackedBy_perform.mp tracked with ⟨ticket, rfl⟩ | ⟨before, _⟩
    · rcases named with ⟨_, _, apply, _, rfl, asks⟩ | ⟨_, _, _, asks⟩ | ⟨_, _, asks⟩
      · obtain ⟨rfl, rfl, _⟩ := TicketTable.Operation.request.inj asks
        exact .inr ⟨apply, rfl⟩
      · simp at asks
      · simp at asks
    · exact .inl before

/-- A consumer goes on tracking a query that it does not release, until it leaves. -/
theorem trackedBy_act (tracked : query ∈ scheduler.table.trackedBy consumer)
    (kept : act ≠ .release consumer query) (stays : act ≠ .detach consumer) :
    query ∈ (scheduler.act act).table.trackedBy consumer := by
  rcases scheduler.table_act act with same | ⟨operation, same, named⟩ <;> rw [same]
  · exact tracked
  · refine TicketTable.mem_trackedBy_perform.mpr (.inr ⟨tracked, ?_, ?_⟩)
    · rintro rfl
      rcases named with ⟨_, _, _, _, _, asks⟩ | ⟨_, _, rfl, asks⟩ | ⟨_, _, asks⟩
      · simp at asks
      · obtain ⟨rfl, rfl⟩ := TicketTable.Operation.release.inj asks
        exact kept rfl
      · simp at asks
    · rintro rfl
      rcases named with ⟨_, _, _, _, _, asks⟩ | ⟨_, _, _, asks⟩ | ⟨_, rfl, asks⟩
      · simp at asks
      · simp at asks
      · obtain rfl := TicketTable.Operation.detach.inj asks
        exact stays rfl

theorem isTracked_act (consistent : scheduler.table.Consistent)
    (tracked : query ∈ scheduler.table.trackedBy consumer)
    (kept : act ≠ .release consumer query) (stays : act ≠ .detach consumer) :
    (scheduler.act act).table.isTracked query = true :=
  (TicketTable.isTracked_iff (consistent_act consistent).distinct).mpr
    ⟨consumer, trackedBy_act tracked kept stays⟩

/-- No act fails a query. -/
theorem failed_of_act (consistent : scheduler.table.Consistent)
    (failed : query ∈ (scheduler.act act).table.failed) :
    query ∈ scheduler.table.failed := by
  rcases scheduler.table_act act with same | ⟨operation, same, named⟩ <;>
      rw [same] at failed
  · exact failed
  · rcases (consistent.mem_failed_perform.mp failed).1 with before | ⟨reply, _, rfl, _⟩
    · exact before
    · rcases named with ⟨_, _, _, _, _, asks⟩ | ⟨_, _, _, asks⟩ | ⟨_, _, asks⟩ <;>
          simp at asks

/-- A failed query stays failed while its consumer tracks it. -/
theorem failed_act (consistent : scheduler.table.Consistent)
    (failed : query ∈ scheduler.table.failed)
    (tracked : query ∈ scheduler.table.trackedBy consumer)
    (kept : act ≠ .release consumer query) (stays : act ≠ .detach consumer) :
    query ∈ (scheduler.act act).table.failed := by
  have still := isTracked_act consistent tracked kept stays
  rcases scheduler.table_act act with same | ⟨operation, same, _⟩ <;> rw [same] at still ⊢
  · exact failed
  · exact consistent.mem_failed_perform.mpr ⟨.inl failed, still⟩

/-- Only a request for a query makes it wait for a ticket. -/
theorem outstandingOf_of_act (consistent : scheduler.table.Consistent)
    (waits : id ∈ (scheduler.act act).table.outstandingOf query) :
    id ∈ scheduler.table.outstandingOf query ∨
      ∃ consumer apply, act = .request consumer query apply := by
  rcases scheduler.table_act act with same | ⟨operation, same, named⟩ <;>
      rw [same] at waits
  · exact .inl waits
  · rcases named with
        ⟨consumer, asking, apply, ticket, rfl, rfl⟩ | ⟨_, _, _, rfl⟩ | ⟨_, _, rfl⟩
    · rcases (TicketTable.mem_outstandingOf_request consistent.toIndexed).mp waits with
          ⟨rfl, _⟩ | before
      · exact .inr ⟨consumer, apply, rfl⟩
      · exact .inl before
    · exact .inl (consistent.mem_outstandingOf_release.mp waits).1
    · exact .inl (consistent.mem_outstandingOf_detach.mp waits).1

/-- A query goes on waiting while its consumer tracks it. -/
theorem outstandingOf_act (consistent : scheduler.table.Consistent)
    (waits : id ∈ scheduler.table.outstandingOf query)
    (tracked : query ∈ scheduler.table.trackedBy consumer)
    (kept : act ≠ .release consumer query) (stays : act ≠ .detach consumer) :
    id ∈ (scheduler.act act).table.outstandingOf query := by
  have still := isTracked_act consistent tracked kept stays
  rcases scheduler.table_act act with same | ⟨operation, same, named⟩ <;>
      rw [same] at still ⊢
  · exact waits
  · rcases named with ⟨_, _, _, _, rfl, rfl⟩ | ⟨_, _, rfl, rfl⟩ | ⟨_, rfl, rfl⟩
    · exact (TicketTable.mem_outstandingOf_request consistent.toIndexed).mpr (.inr waits)
    · exact consistent.mem_outstandingOf_release.mpr ⟨waits, still⟩
    · exact consistent.mem_outstandingOf_detach.mpr ⟨waits, still⟩

end Table

section Seats

/-- The consumer is attached with this mailbox, and holds it. -/
structure Seats (scheduler : Scheduler) (consumer : ConsumerId)
    (mailbox : MailboxId) : Prop where
  address : scheduler.addresses.get? consumer = some mailbox
  held : (scheduler.mailbox mailbox).isHeld = true

variable {scheduler : Scheduler} {act : Act} {consumer : ConsumerId}
  {mailbox other : MailboxId}

theorem mailbox_update (scheduler : Scheduler) (f : Mailbox → Mailbox) :
    (scheduler.updateMailbox other f).mailbox mailbox =
      if other = mailbox ∧ mailbox.index < scheduler.mailboxes.length then
        f (scheduler.mailbox mailbox)
      else scheduler.mailbox mailbox := by
  simp only [Scheduler.mailbox, updateMailbox, List.getElem?_modify]
  by_cases same : other = mailbox
  · subst same
    cases found : scheduler.mailboxes[other.index]? with
    | none =>
        have outside := List.getElem?_eq_none_iff.mp found
        simp [Nat.not_lt.mpr outside]
    | some _ =>
        obtain ⟨within, _⟩ := List.getElem?_eq_some_iff.mp found
        simp [within]
  · have apart : other.index ≠ mailbox.index :=
      fun same_index => same (by cases other; cases mailbox; simp_all)
    simp [same, apart]

theorem index_lt_of_held (held : (scheduler.mailbox mailbox).isHeld = true) :
    mailbox.index < scheduler.mailboxes.length := by
  by_contra outside
  have absent : scheduler.mailboxes[mailbox.index]? = none :=
    List.getElem?_eq_none_iff.mpr (Nat.not_lt.mp outside)
  simp [Scheduler.mailbox, absent] at held

theorem mailbox_attach (scheduler : Scheduler) (consumer : ConsumerId) :
    (scheduler.attach consumer).2.mailbox mailbox =
      if mailbox.index = scheduler.mailboxes.length then
        {} else scheduler.mailbox mailbox := by
  simp only [Scheduler.mailbox, attach]
  by_cases new : mailbox.index = scheduler.mailboxes.length
  · simp [new]
  · by_cases within : mailbox.index < scheduler.mailboxes.length
    · simp [new, List.getElem?_append_left within]
    · have outside : (scheduler.mailboxes ++ [({} : Mailbox)]).length ≤ mailbox.index := by
        rw [List.length_append, List.length_singleton]
        omega
      rw [List.getElem?_eq_none_iff.mpr outside,
        List.getElem?_eq_none_iff.mpr (Nat.not_lt.mp within), if_neg new]

theorem takeEvent?_eq_some {event : QueryEvent}
    (taken : scheduler.takeEvent? mailbox = some (event, after)) :
    (scheduler.mailbox mailbox).events = event :: (after.mailbox mailbox).events ∧
      after = scheduler.act (.take mailbox) := by
  have acted : after = scheduler.act (.take mailbox) := by simp [Scheduler.act, taken]
  unfold takeEvent? at taken
  split at taken
  · simp at taken
  next events =>
    simp only [Option.some.injEq, Prod.mk.injEq] at taken
    obtain ⟨rfl, same⟩ := taken
    have within : mailbox.index < scheduler.mailboxes.length := by
      by_contra outside
      have absent : scheduler.mailboxes[mailbox.index]? = none :=
        List.getElem?_eq_none_iff.mpr (Nat.not_lt.mp outside)
      simp [Scheduler.mailbox, absent] at events
    refine ⟨?_, acted⟩
    rw [← same, mailbox_update, if_pos ⟨rfl, within⟩, events]

/-- What an act makes of a mailbox: it is new, or it lost an event, or
everything, or it is as it was. -/
theorem mailbox_act (scheduler : Scheduler) (act : Act) (mailbox : MailboxId) :
    (scheduler.act act).mailbox mailbox = scheduler.mailbox mailbox ∨
      ((∃ consumer, act = .attach consumer) ∧ mailbox.index = scheduler.mailboxes.length ∧
        (scheduler.act act).mailbox mailbox = {}) ∨
      (act = .abandon mailbox ∧ (scheduler.act act).mailbox mailbox = { isHeld := false }) ∨
      (act = .take mailbox ∧ ∃ event, scheduler.mailbox mailbox =
        { (scheduler.act act).mailbox mailbox with
          events := event :: ((scheduler.act act).mailbox mailbox).events }) := by
  cases act with
  | attach consumer =>
      by_cases new : mailbox.index = scheduler.mailboxes.length
      · exact .inr (.inl ⟨⟨consumer, rfl⟩, new, by simp [Scheduler.act, mailbox_attach, new]⟩)
      · exact .inl (by simp [Scheduler.act, mailbox_attach, new])
  | detach consumer => exact .inl rfl
  | abandon other =>
      by_cases same : other = mailbox ∧ mailbox.index < scheduler.mailboxes.length
      · refine .inr (.inr (.inl ⟨by rw [same.1], ?_⟩))
        simp only [Scheduler.act, abandon, mailbox_update, same, and_self, if_true]
      · exact .inl (by simp only [Scheduler.act, abandon, mailbox_update, same, if_false])
  | take other =>
      cases events : (scheduler.mailbox other).events with
      | nil => exact .inl (by simp [Scheduler.act, takeEvent?, events])
      | cons event rest =>
          have acted : scheduler.act (.take other) =
              scheduler.updateMailbox other
                fun mailbox => { mailbox with events := rest } := by
            simp [Scheduler.act, takeEvent?, events]
          rw [acted, mailbox_update]
          by_cases same : other = mailbox ∧ mailbox.index < scheduler.mailboxes.length
          · rw [if_pos same]
            obtain ⟨rfl, _⟩ := same
            exact .inr (.inr (.inr ⟨rfl, event, by rw [← events]⟩))
          · exact .inl (if_neg same)
  | release consumer query => exact .inl rfl
  | request consumer query apply =>
      cases requested : scheduler.request consumer query apply with
      | error fault => exact .inl (by simp [Scheduler.act, requested])
      | ok granted =>
          obtain ⟨ticket, asked⟩ := asked_of_request requested
          have same : scheduler.act (.request consumer query apply) = granted.2 := by
            simp [Scheduler.act, requested]
          rw [same, Scheduler.mailbox, asked.mailboxes, ← Scheduler.mailbox]
          exact .inl rfl

/-- Acts put no events into mailboxes. -/
theorem mailed_of_act {event : QueryEvent}
    (mailed : event ∈ ((scheduler.act act).mailbox mailbox).events) :
    event ∈ (scheduler.mailbox mailbox).events := by
  rcases scheduler.mailbox_act act mailbox with
      same | ⟨_, _, new⟩ | ⟨_, emptied⟩ | ⟨_, taken, same⟩
  · rwa [same] at mailed
  · simp [new] at mailed
  · simp [emptied] at mailed
  · rw [same]
    exact List.mem_cons_of_mem taken mailed

theorem length_mailboxes_act (scheduler : Scheduler) (act : Act) :
    scheduler.mailboxes.length ≤ (scheduler.act act).mailboxes.length := by
  cases act with
  | attach consumer => simp [Scheduler.act, attach]
  | detach consumer => exact Nat.le_refl _
  | abandon other => simp [Scheduler.act, abandon, updateMailbox]
  | take other =>
      cases events : (scheduler.mailbox other).events <;> simp [Scheduler.act, takeEvent?,
        events, updateMailbox]
  | release consumer query => exact Nat.le_refl _
  | request consumer query apply =>
      cases requested : scheduler.request consumer query apply with
      | error fault => simp [Scheduler.act, requested]
      | ok granted =>
          obtain ⟨ticket, asked⟩ := asked_of_request requested
          simp [Scheduler.act, requested, asked.mailboxes]

/-- A consumer that neither attaches nor leaves is reached where it was. -/
theorem address_act (attaches : act ≠ .attach consumer) (stays : act ≠ .detach consumer) :
    (scheduler.act act).addresses.get? consumer = scheduler.addresses.get? consumer := by
  cases act with
  | attach other =>
      have apart : other ≠ consumer := fun same => attaches (same ▸ rfl)
      exact OrderedMap.get?_insert_of_ne apart
  | detach other =>
      have apart : other ≠ consumer := fun same => stays (same ▸ rfl)
      exact OrderedMap.get?_erase_of_ne apart
  | abandon other => rfl
  | take other =>
      cases events : (scheduler.mailbox other).events <;> simp [Scheduler.act, takeEvent?,
        events, updateMailbox]
  | release other query => rfl
  | request other query apply =>
      cases requested : scheduler.request other query apply with
      | error fault => simp [Scheduler.act, requested]
      | ok granted =>
          obtain ⟨ticket, asked⟩ := asked_of_request requested
          simp [Scheduler.act, requested, asked.addresses]

theorem seats_act (seats : scheduler.Seats consumer mailbox)
    (attaches : act ≠ .attach consumer) (stays : act ≠ .detach consumer)
    (holds : act ≠ .abandon mailbox) : (scheduler.act act).Seats consumer mailbox where
  address := (address_act attaches stays).trans seats.address
  held := by
    rcases scheduler.mailbox_act act mailbox with
        same | ⟨_, new, _⟩ | ⟨abandons, _⟩ | ⟨_, _, same⟩
    · rw [same]
      exact seats.held
    · have within := index_lt_of_held seats.held
      omega
    · exact absurd abandons holds
    · have held := seats.held
      rw [same] at held
      exact held

end Seats

section Business

variable {scheduler : Scheduler} {act : Act} {consumer : ConsumerId} {mailbox : MailboxId}
  {query : QueryId} {event : QueryEvent} {deliveries : Deliveries} {reply : Reply}

/-- The consumer keeps its seat and its mail, goes on tracking the query, and nothing the
query waits for is lost. -/
structure Spares (consumer : ConsumerId) (mailbox : MailboxId) (query : QueryId)
    (before after : Scheduler) : Prop where
  seats : after.Seats consumer mailbox
  mailed :
    ∀ {event}, event ∈ (before.mailbox mailbox).events →
    event ∈ (after.mailbox mailbox).events
  tracked :
    query ∈ before.table.trackedBy consumer → query ∈ after.table.trackedBy consumer
  failed :
    query ∈ before.table.trackedBy consumer → query ∈ before.table.failed →
    query ∈ after.table.failed
  waits :
    query ∈ before.table.trackedBy consumer →
    ∀ {id}, id ∈ before.table.outstandingOf query → id ∈ after.table.outstandingOf query

theorem Spares.refl (seats : scheduler.Seats consumer mailbox) :
    Spares consumer mailbox query scheduler scheduler :=
  ⟨seats, id, id, fun _ => id, fun _ => id⟩

theorem Spares.trans {first second third : Scheduler}
    (left : Spares consumer mailbox query first second)
    (right : Spares consumer mailbox query second third) :
    Spares consumer mailbox query first third where
  seats := right.seats
  mailed given := right.mailed (left.mailed given)
  tracked given := right.tracked (left.tracked given)
  failed tracked given := right.failed (left.tracked tracked) (left.failed tracked given)
  waits tracked _ given := right.waits (left.tracked tracked) (left.waits tracked given)

/-- The acts that concern the seat of the consumer, its mail, or its interest in the query. -/
def Act.Concerns (consumer : ConsumerId) (mailbox : MailboxId) (query : QueryId)
    (act : Act) : Prop :=
  act = .attach consumer ∨ act = .detach consumer ∨ act = .abandon mailbox ∨
    act = .take mailbox ∨ act = .release consumer query

theorem spares_act (consistent : scheduler.table.Consistent)
    (seats : scheduler.Seats consumer mailbox)
    (other : ¬act.Concerns consumer mailbox query) :
    Spares consumer mailbox query scheduler (scheduler.act act) := by
  simp only [Act.Concerns, not_or] at other
  obtain ⟨attaches, stays, holds, takes, kept⟩ := other
  refine ⟨seats_act seats attaches stays holds, fun {event} mailed => ?_,
    fun tracked => trackedBy_act tracked kept stays,
    fun tracked failed => failed_act consistent failed tracked kept stays,
    fun tracked _ waits => outstandingOf_act consistent waits tracked kept stays⟩
  rcases scheduler.mailbox_act act mailbox with
      same | ⟨_, new, _⟩ | ⟨abandons, _⟩ | ⟨taken, _⟩
  · rw [same]
    exact mailed
  · have within := index_lt_of_held seats.held
    omega
  · exact absurd abandons holds
  · exact absurd taken takes

theorem Leads.spares (leads : Leads allowed before after)
    (consistent : before.table.Consistent) (seats : before.Seats consumer mailbox)
    (other : ∀ {scheduler act}, allowed scheduler act → ¬act.Concerns consumer mailbox query) :
    Spares consumer mailbox query before after := by
  let holds (later : Scheduler) : Prop :=
    later.table.Consistent ∧ Spares consumer mailbox query before later
  have kept {scheduler : Scheduler} {act : Act} (given : holds scheduler)
      (permitted : allowed scheduler act) : holds (scheduler.act act) :=
    ⟨consistent_act given.1,
      given.2.trans (spares_act given.1 given.2.seats (other permitted))⟩
  exact (leads.keeps (fun given permitted => kept given permitted)
    ⟨consistent, .refl seats⟩ : holds after).2

theorem mailbox_push (seats : scheduler.Seats consumer mailbox) (other : MailboxId)
    (event : QueryEvent) : Spares consumer mailbox query scheduler
      (scheduler.updateMailbox other
        fun mailbox => { mailbox with events := mailbox.events ++ [event] }) := by
  refine ⟨⟨seats.address, ?_⟩, fun {mailed} given => ?_, id, fun _ => id, fun _ => id⟩
  · rw [mailbox_update]
    split <;> exact seats.held
  · rw [mailbox_update]
    split
    · exact List.mem_append_left _ given
    · exact given

/-- Delivering events keeps the business of whoever has a seat. -/
theorem spares_deliver (seats : scheduler.Seats consumer mailbox)
    (consistent : scheduler.table.Consistent) (deliveries : Deliveries) :
    Spares consumer mailbox query scheduler (deliveries.foldl deliver scheduler) := by
  let holds (later : Scheduler) : Prop :=
    later.table.Consistent ∧ Spares consumer mailbox query scheduler later
  have mailed {later : Scheduler} {id : MailboxId} {event : QueryEvent}
      (given : holds later) : holds (later.updateMailbox id
      fun mailbox => { mailbox with events := mailbox.events ++ [event] }) :=
    ⟨given.1, given.2.trans (mailbox_push given.2.seats id event)⟩
  have detached {later : Scheduler} {other : ConsumerId} {id : MailboxId}
      (given : holds later) (addressed : later.addresses.get? other = some id)
      (unheld : (later.mailbox id).isHeld = false) : holds (later.detach other) := by
    have apart : other ≠ consumer := by
      rintro rfl
      obtain rfl := Option.some.inj (addressed.symm.trans given.2.seats.address)
      simp [given.2.seats.held] at unheld
    have acted : later.detach other = later.act (.detach other) := rfl
    rw [acted]
    exact ⟨consistent_act given.1,
      given.2.trans (spares_act given.1 given.2.seats (by simp [Act.Concerns, apart]))⟩
  have delivered : holds (deliveries.foldl Scheduler.deliver scheduler) :=
    foldl_deliver mailed detached ⟨consistent, .refl seats⟩
  exact delivered.2

/-- What is delivered to a consumer with a seat arrives. -/
theorem mailed_deliver (seats : scheduler.Seats consumer mailbox)
    (consistent : scheduler.table.Consistent)
    (delivered : (consumer, event) ∈ deliveries) :
    event ∈ ((deliveries.foldl deliver scheduler).mailbox mailbox).events := by
  obtain ⟨earlier, later, rfl⟩ := List.append_of_mem delivered
  rw [List.foldl_append, List.foldl_cons]
  have before :
      Spares consumer mailbox event.query scheduler (earlier.foldl deliver scheduler) :=
    spares_deliver seats consistent earlier
  have consistent : (earlier.foldl deliver scheduler).table.Consistent :=
    (untouched_deliver consistent earlier).2
  generalize earlier.foldl deliver scheduler = source at before consistent
  have arrives : source.deliver (consumer, event) =
      source.updateMailbox mailbox
        fun mailbox => { mailbox with events := mailbox.events ++ [event] } := by
    simp [deliver, before.seats.address, before.seats.held]
  have pushed :
      Spares consumer mailbox event.query source (source.deliver (consumer, event)) :=
    arrives ▸ mailbox_push before.seats mailbox event
  have inside : event ∈ ((source.deliver (consumer, event)).mailbox mailbox).events := by
    rw [arrives, mailbox_update, if_pos ⟨rfl, index_lt_of_held before.seats.held⟩]
    exact List.mem_append_right _ List.mem_cons_self
  have rest : Spares consumer mailbox event.query (source.deliver (consumer, event))
      (later.foldl deliver (source.deliver (consumer, event))) :=
    spares_deliver pushed.seats (arrives ▸ consistent) later
  exact rest.mailed inside

/-- What is in a mailbox after the deliveries was there before, or was delivered. -/
theorem mailed_of_deliver
    (mailed : event ∈ ((deliveries.foldl deliver scheduler).mailbox mailbox).events) :
    event ∈ (scheduler.mailbox mailbox).events ∨
      ∃ consumer, (consumer, event) ∈ deliveries := by
  induction deliveries generalizing scheduler with
  | nil => exact .inl mailed
  | cons delivery rest ih =>
      rcases ih mailed with before | ⟨consumer, later⟩
      · unfold deliver at before
        split at before
        · exact .inl before
        · split at before
          · rw [mailbox_update] at before
            split at before
            · rcases List.mem_append.mp before with before | new
              · exact .inl before
              · rw [List.mem_singleton.mp new]
                exact .inr ⟨delivery.1, List.mem_cons_self⟩
            · exact .inl before
          · exact .inl before
      · exact .inr ⟨consumer, List.mem_cons_of_mem _ later⟩

theorem length_mailboxes_deliver (scheduler : Scheduler) (deliveries : Deliveries) :
    (deliveries.foldl deliver scheduler).mailboxes.length = scheduler.mailboxes.length := by
  induction deliveries generalizing scheduler with
  | nil => rfl
  | cons delivery rest ih =>
      rw [List.foldl_cons, ih]
      unfold deliver
      split
      · rfl
      · split <;> simp [updateMailbox, detach]

/-- Delivering events makes nobody track, fail or wait. -/
theorem of_deliver (consistent : scheduler.table.Consistent) (deliveries : Deliveries) :
    (∀ {consumer query},
      query ∈ (deliveries.foldl deliver scheduler).table.trackedBy consumer →
        query ∈ scheduler.table.trackedBy consumer) ∧
      (∀ {query}, query ∈ (deliveries.foldl deliver scheduler).table.failed →
        query ∈ scheduler.table.failed) ∧ ∀ {query id},
        id ∈ (deliveries.foldl deliver scheduler).table.outstandingOf query →
        id ∈ scheduler.table.outstandingOf query := by
  let holds (later : Scheduler) : Prop := later.table.Consistent ∧
    (∀ {consumer query}, query ∈ later.table.trackedBy consumer →
      query ∈ scheduler.table.trackedBy consumer) ∧
    (∀ {query}, query ∈ later.table.failed → query ∈ scheduler.table.failed) ∧
    ∀ {query id}, id ∈ later.table.outstandingOf query →
      id ∈ scheduler.table.outstandingOf query
  have detached {later : Scheduler} {other : ConsumerId} {id : MailboxId}
      (given : holds later) (_ : later.addresses.get? other = some id)
      (_ : (later.mailbox id).isHeld = false) : holds (later.detach other) := by
    obtain ⟨consistent, tracked, failed, waits⟩ := given
    have acted : later.detach other = later.act (.detach other) := rfl
    rw [acted]
    refine ⟨consistent_act consistent, fun given => tracked ?_,
      fun given => failed (failed_of_act consistent given), fun given => waits ?_⟩
    · exact (trackedBy_of_act given).resolve_right (by simp)
    · exact (outstandingOf_of_act consistent given).resolve_right (by simp)
  have delivered : holds (deliveries.foldl Scheduler.deliver scheduler) :=
    foldl_deliver (fun given => given) detached ⟨consistent, id, id, id⟩
  exact delivered.2

/-- A reply reaches the table; delivering what comes of it keeps the business
of whoever has a seat. -/
theorem spares_reply (seats : scheduler.Seats consumer mailbox)
    (consistent : scheduler.table.Consistent) (reply : Reply) :
    Spares consumer mailbox query { scheduler with table := (scheduler.table.reply reply).2 }
      (scheduler.reply reply) := by
  have seated :
      ({ scheduler with table := (scheduler.table.reply reply).2 } : Scheduler).Seats
        consumer mailbox :=
    ⟨seats.address, seats.held⟩
  exact spares_deliver seated (consistent.perform (.reply reply)) _

/-- Nobody tracks, fails or waits after a reply but as the table says, which
the reply has reached. -/
theorem of_reply (consistent : scheduler.table.Consistent) (reply : Reply) :
    (∀ {consumer query}, query ∈ (scheduler.reply reply).table.trackedBy consumer →
        query ∈ scheduler.table.trackedBy consumer) ∧
      (∀ {query}, query ∈ (scheduler.reply reply).table.failed →
        query ∈ (scheduler.table.reply reply).2.failed) ∧
      ∀ {query id}, id ∈ (scheduler.reply reply).table.outstandingOf query →
        id ∈ (scheduler.table.reply reply).2.outstandingOf query := by
  have accepted : ({ scheduler with table := (scheduler.table.reply reply).2 } :
      Scheduler).table.Consistent :=
    consistent.perform (.reply reply)
  obtain ⟨tracks, fails, waits⟩ := of_deliver accepted (scheduler.table.reply reply).1
  refine ⟨fun {consumer query} tracked => ?_, fails, waits⟩
  have before : query ∈ (scheduler.table.reply reply).2.trackedBy consumer :=
    tracks tracked
  rwa [TicketTable.trackedBy_congr TicketTable.tracking_reply] at before

end Business

end Scheduler

end TicketFlow
