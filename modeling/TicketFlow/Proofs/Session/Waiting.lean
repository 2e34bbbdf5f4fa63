import TicketFlow.Proofs.Reduction.Staleness
import TicketFlow.Proofs.Session.Stall
import TicketFlow.Proofs.Session.Upkeep

namespace TicketFlow

/-! What a query without curries waits for.

A step that comes to an end concludes such a query, or it waits for a ticket.
From then on something is always due: a ticket that it waits for, or an event
in the mailbox of its consumer.
-/

/-- Neither is the depth of the reduction exceeded, nor does it follow a chain of
parents without an end. -/
def Query.Stepped.ends (stepped : Query.Stepped) : Bool :=
  match stepped.outcome with
  | .error .exhausted | .error (.fault (.endlessChain _)) => false
  | _ => true

/-- Without curries nothing is hidden, so a query can only be stalled
for lack of an output. -/
theorem Context.Stalled.lacks {table : TicketTable} {context : Context}
    (stalled : context.Stalled table) (grounded : context.Grounded) :
    context.Lacking table := by
  cases stalled with
  | hidden inside hides => exact absurd hides (grounded.not_hides inside)
  | lacking lacking => exact lacking

/-- Stored outputs do not change, so what is lacking is lacking for good. -/
theorem Context.Lacking.kept {before after : TicketTable} {context : Context}
    (lacking : context.Lacking before)
    (kept : ∀ {id outputs}, before.results.get? id = some outputs →
      after.results.get? id = some outputs) : context.Lacking after := by
  obtain ⟨term, inside, placeholder, exposes, outputs, stored, short⟩ := lacking
  exact ⟨term, inside, placeholder, exposes, outputs, kept stored, short⟩

namespace Session

variable {run : RunId} {query : Query} {scheduler : Scheduler} {depth : Nat}

/-- The query is tended, and its context is grounded. -/
structure Watched (run : RunId) (query : Query) (scheduler : Scheduler) :
    Prop extends Tended run query scheduler where
  grounded : query.context.Grounded

theorem Watched.pass (watched : Watched run query scheduler) (depth : Nat) :
    Watched run (query.pass depth scheduler).2.1 (query.pass depth scheduler).2.2 ∧
      ∀ reason, (query.pass depth scheduler).1 = .error reason → reason.IsInherent := by
  obtain ⟨grounded, inherent⟩ := watched.grounded.reduce
    (Scheduler.accounts_attends run query.consumer query.id) watched.accounted.arena
    ⟨watched.attends, watched.sameRun⟩ depth
  exact ⟨{ (watched.toTended.pass depth).1 with grounded }, inherent⟩

/-- The last pass of a step concludes the query, or leaves it waiting for a ticket. -/
theorem Watched.settle (watched : Watched run query scheduler)
    (ends : (query.settle depth scheduler).ends = true) :
    (∃ result, (query.settle depth scheduler).outcome = .ok (.finished result)) ∨
      (∃ error, (query.settle depth scheduler).outcome = .error (.rejected error)) ∨
      (∃ soFar, (query.settle depth scheduler).outcome = .ok (.pending soFar)) ∧
        Watched run (query.settle depth scheduler).query
          (query.settle depth scheduler).scheduler ∧
        ((query.settle depth scheduler).scheduler.table.outstandingOf query.id ≠ [] ∨
        (query.settle depth scheduler).query.context.Lacking
          (query.settle depth scheduler).scheduler.table) := by
  obtain ⟨after, inherent⟩ := watched.pass depth
  obtain ⟨sameQuery, sameScheduler⟩ := query.settle_frame depth scheduler
  cases outcome : (query.settle depth scheduler).outcome with
  | error reason =>
      have failed := Query.settle_error outcome
      cases reason with
      | rejected error => exact .inr (.inl ⟨error, rfl⟩)
      | fault fault =>
          obtain ⟨block, rfl⟩ := inherent _ failed fault rfl
          simp [Query.Stepped.ends, outcome] at ends
      | exhausted => simp [Query.Stepped.ends, outcome] at ends
  | ok progress =>
      cases progress with
      | finished result => exact .inl ⟨result, rfl⟩
      | failed =>
          obtain ⟨_, _, progress⟩ := Query.settle_ok outcome
          simp only [after.attends.isFailed_eq_false, Bool.false_eq_true,
            if_false] at progress
          split at progress <;> cases progress
      | pending soFar =>
          refine .inr (.inr ⟨⟨soFar, rfl⟩, ?_, ?_⟩)
          · rw [sameQuery, sameScheduler]
            exact after
          · refine ((watched.toTended.settle outcome).mp ⟨soFar, rfl⟩).imp id fun stalled => ?_
            rw [sameQuery] at stalled ⊢
            exact stalled.lacks after.grounded

/-- A step concludes the query, or leaves it waiting for a ticket. -/
theorem Watched.step (watched : Watched run query scheduler)
    (ends : (query.step depth scheduler).ends = true) :
    (∃ result, (query.step depth scheduler).outcome = .ok (.finished result)) ∨
      (∃ error, (query.step depth scheduler).outcome = .error (.rejected error)) ∨
      (∃ soFar, (query.step depth scheduler).outcome = .ok (.pending soFar)) ∧
        Watched run (query.step depth scheduler).query (query.step depth scheduler).scheduler ∧
        ((query.step depth scheduler).scheduler.table.outstandingOf query.id ≠ [] ∨
        (query.step depth scheduler).query.context.Lacking
          (query.step depth scheduler).scheduler.table) := by
  let holds (later : Query) (source : Scheduler) : Prop :=
    Watched run later source ∧ later.id = query.id
  have passed {later : Query} {source : Scheduler} (given : holds later source) :
      holds (later.pass depth source).2.1 (later.pass depth source).2.2 :=
      ⟨(given.1.pass depth).1, given.2⟩
  have begins : holds query scheduler := ⟨watched, rfl⟩
  obtain ⟨failed, _⟩ | ⟨last, source, ⟨reached, same⟩, lastStep⟩ :=
    Query.step_cases passed begins
  · simp [watched.attends.isFailed_eq_false] at failed
  · rw [lastStep] at ends ⊢
    rw [← same]
    exact reached.settle ends

end Session

namespace Query

variable {run : RunId} {query : Query} {scheduler before after source : Scheduler}
  {mailbox other : MailboxId} {consumer : ConsumerId} {event : QueryEvent} {reply : Reply}

/-- The query waits for a ticket, or there is an event about it in the mailbox; or one of
its tickets is finished without an output that it meets. -/
def Due (scheduler : Scheduler) (mailbox : MailboxId) (query : Query) : Prop :=
  scheduler.table.outstandingOf query.id ≠ [] ∨
    (∃ event ∈ (scheduler.mailbox mailbox).events, event.query = query.id) ∨
    query.context.Lacking scheduler.table

/-- The query failed, and the news of that are in the mailbox; or it has not failed,
and something is due. -/
inductive Minded (run : RunId) (scheduler : Scheduler) (mailbox : MailboxId)
    (query : Query) : Prop where
  | failed {failure : Failure} (marked : query.id ∈ scheduler.table.failed)
      (news : .queryFailed query.id failure ∈ (scheduler.mailbox mailbox).events)
  | waits (unfailed : query.id ∉ scheduler.table.failed)
      (accounted : query.context.Accounted (Scheduler.Traces run query.id scheduler))
      (grounded : query.context.Grounded) (due : query.Due scheduler mailbox)

theorem Minded.due (minded : query.Minded run scheduler mailbox) :
    query.Due scheduler mailbox := by
  cases minded with
  | failed marked news => exact .inr (.inl ⟨_, news, rfl⟩)
  | waits _ _ _ due => exact due

theorem minded_of_watched (watched : Session.Watched run query scheduler)
    (waits : scheduler.table.outstandingOf query.id ≠ [] ∨
      query.context.Lacking scheduler.table) : query.Minded run scheduler mailbox :=
  .waits watched.attends.unfailed watched.accounted watched.grounded
    (waits.imp_right .inr)

/-- What others do does not concern the query. -/
theorem Minded.upheld (minded : query.Minded run before mailbox)
    (consistent : before.table.Consistent)
    (tracks : before.table.isTracked query.id = true →
      query.id ∈ before.table.trackedBy consumer)
    (upholds : Scheduler.Upholds consumer mailbox query.id before after) :
    query.Minded run after mailbox := by
  cases minded with
  | failed marked news =>
      exact .failed (upholds.failed (tracks (consistent.failedTracked marked)) marked)
        (upholds.mailed news)
  | waits unfailed accounted grounded due =>
      refine .waits (mt upholds.unfailed unfailed)
        ((upholds.retains consistent tracks).accounted accounted) grounded ?_
      rcases due with outstanding | ⟨event, inside, about⟩ | lacking
      · obtain ⟨id, waits⟩ := List.exists_mem_of_ne_nil _ outstanding
        exact .inl
          (List.ne_nil_of_mem (upholds.waits (tracks (consistent.tracked waits)) waits))
      · exact .inr (.inl ⟨event, upholds.mailed inside, about⟩)
      · exact .inr (.inr (lacking.kept fun stored => upholds.results ▸ stored))

/-- A reply wakes the query if that waits for its ticket. -/
theorem Minded.replied (minded : query.Minded run scheduler mailbox)
    (seats : scheduler.Seats consumer mailbox) (consistent : scheduler.table.Consistent)
    (tracks : scheduler.table.isTracked query.id = true →
      query.id ∈ scheduler.table.trackedBy consumer)
    (pending : scheduler.table.isPending reply.ticket = true) :
    query.Minded run (scheduler.reply reply) mailbox := by
  have fails_iff := @Scheduler.mem_failed_reply_iff _ _ _ _ reply seats consistent tracks
  have kept {event : QueryEvent} (inside : event ∈ (scheduler.mailbox mailbox).events) :
      event ∈ ((scheduler.reply reply).mailbox mailbox).events := by
    have spares : Scheduler.Spares consumer mailbox query.id _ (scheduler.reply reply) :=
      Scheduler.spares_reply seats consistent reply
    exact spares.mailed inside
  have told {event : QueryEvent}
      (delivered : (consumer, event) ∈ (scheduler.table.reply reply).1) :
      event ∈ ((scheduler.reply reply).mailbox mailbox).events := by
    have seated :
        ({ scheduler with table := (scheduler.table.reply reply).2 } : Scheduler).Seats
          consumer mailbox :=
      ⟨seats.address, seats.held⟩
    exact Scheduler.mailed_deliver seated (consistent.perform (.reply reply)) delivered
  cases minded with
  | failed marked news => exact .failed (fails_iff.mpr (.inl marked)) (kept news)
  | waits unfailed accounted grounded due =>
      by_cases concerned : reply.ticket ∈ scheduler.table.outstandingOf query.id
      · have tracked := tracks (consistent.tracked concerned)
        cases verdict : (scheduler.table.standingOf reply.ticket).verdict reply with
        | ignored => exact absurd verdict (TicketTable.verdict_ne_ignored pending)
        | fails failure =>
            have delivered : (consumer, .queryFailed query.id failure) ∈
                (scheduler.table.reply reply).1 :=
              (consistent.mem_reply_fails verdict).mpr ⟨query.id, concerned, tracked, rfl⟩
            exact .failed (fails_iff.mpr (.inr ⟨concerned, failure, verdict⟩))
              (told delivered)
        | accepted =>
            have still : query.id ∉ (scheduler.reply reply).table.failed := by
              rw [fails_iff, verdict]
              rintro (before | ⟨_, _, other⟩)
              · exact unfailed before
              · cases other
            obtain ⟨report, delivered⟩ := consistent.mem_reply_accepted verdict
            have event := told (delivered.mpr ⟨query.id, concerned, tracked, rfl⟩)
            exact .waits still
              ((Scheduler.retains_reply seats consistent tracks pending still).accounted
                accounted) grounded (.inr (.inl ⟨_, event, rfl⟩))
      · have still : query.id ∉ (scheduler.reply reply).table.failed := by
          rw [fails_iff]
          exact fun failed => failed.elim unfailed fun fails => concerned fails.1
        refine .waits still
          ((Scheduler.retains_reply seats consistent tracks pending still).accounted
            accounted) grounded ?_
        rcases due with outstanding | ⟨event, inside, about⟩ | lacking
        · obtain ⟨id, waits⟩ := List.exists_mem_of_ne_nil _ outstanding
          have apart : reply.ticket ≠ id := by
            rintro rfl
            exact concerned waits
          exact .inl (List.ne_nil_of_mem
            (Scheduler.outstandingOf_reply seats consistent tracks waits
              (fun same => apart same.1) still))
        · exact .inr (.inl ⟨event, kept inside, about⟩)
        · exact .inr (.inr (lacking.kept (Scheduler.stored_reply consistent pending)))

section Reading

variable (taken : scheduler.takeEvent? mailbox = some (event, source))
include taken

/-- After an event has been read, nothing but that event is missed. -/
theorem frame_taken : source.table = scheduler.table ∧
    (scheduler.mailbox mailbox).events = event :: (source.mailbox mailbox).events ∧
    Scheduler.Retains query.id scheduler.table source.table := by
  obtain ⟨events, rfl⟩ := Scheduler.takeEvent?_eq_some taken
  have table := (scheduler.untouched_take mailbox).2
  exact ⟨table, events, table ▸ .refl _ _⟩

/-- An event about another query is not missed. -/
theorem Minded.taken_other (minded : query.Minded run scheduler mailbox)
    (other : event.query ≠ query.id) : query.Minded run source mailbox := by
  obtain ⟨table, events, retains⟩ := @frame_taken query _ _ _ _ taken
  have still {another : QueryEvent}
      (inside : another ∈ (scheduler.mailbox mailbox).events)
      (about : another.query = query.id) : another ∈ (source.mailbox mailbox).events := by
    rw [events] at inside
    rcases List.mem_cons.mp inside with rfl | rest
    · exact absurd about other
    · exact rest
  cases minded with
  | failed marked news => exact .failed (table ▸ marked) (still news rfl)
  | waits unfailed accounted grounded due =>
      refine .waits (table ▸ unfailed) (retains.accounted accounted) grounded ?_
      exact due.imp (table ▸ ·) (Or.imp
        (fun ⟨another, inside, about⟩ => ⟨another, still inside about, about⟩) (table ▸ ·))

/-- Progress that leaves the queue of the query unclear is not the last that it hears of. -/
theorem Minded.taken_unclear {ticket : TicketId} {report : List ReportEntry}
    (minded : query.Minded run scheduler mailbox)
    (finished : event = .ticketFinished query.id ticket report)
    (unclear : source.isQueueClear query.id = false) :
    query.Minded run source mailbox := by
  obtain ⟨table, events, retains⟩ := @frame_taken query _ _ _ _ taken
  cases minded with
  | failed marked news =>
      rw [events, finished] at news
      rcases List.mem_cons.mp news with same | rest
      · cases same
      · exact .failed (table ▸ marked) rest
  | waits unfailed accounted grounded _ =>
      refine .waits (table ▸ unfailed) (retains.accounted accounted) grounded
        (.inl fun nothing => ?_)
      simp [Scheduler.isQueueClear, TicketTable.isQueueClear, TicketTable.isFailed, table,
        unfailed, table ▸ nothing] at unclear

/-- A query whose queue is clear may be stepped. -/
theorem Minded.taken_clear (minded : query.Minded run scheduler mailbox)
    (clear : source.isQueueClear query.id = true) :
    query.id ∉ source.table.failed ∧
      query.context.Accounted (Scheduler.Traces run query.id source) ∧
      query.context.Grounded := by
  obtain ⟨table, _, retains⟩ := @frame_taken query _ _ _ _ taken
  cases minded with
  | failed marked _ =>
      simp [Scheduler.isQueueClear, TicketTable.isQueueClear, TicketTable.isFailed, table,
        marked] at clear
  | waits unfailed accounted grounded _ =>
      exact ⟨table ▸ unfailed, retains.accounted accounted, grounded⟩

end Reading

end Query

end TicketFlow
