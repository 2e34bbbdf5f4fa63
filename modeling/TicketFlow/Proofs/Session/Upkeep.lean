import TicketFlow.Proofs.Reduction.Sources
import TicketFlow.Proofs.Schedule.Acts
import TicketFlow.Proofs.Session.Attendance

namespace TicketFlow

/-! What a scheduler that attends to a query lives on.

Consumers store no outputs and drop none.  A reply for a pending ticket drops
none either, and it loses nothing that a query waits for unless the query fails.
-/

/-- The outputs that the reply brings name no blocks. -/
def Reply.IsBlockless : Reply → Prop
  | .finished _ outputs _ => ∀ value ∈ outputs, ∀ term ∈ value, term.blocks = []
  | .failed _ => True

/-- All outputs that the reply brings are strings. -/
def Reply.IsLiteral : Reply → Prop
  | .finished _ outputs _ =>
      ∃ texts : List (List String), outputs = texts.map Compound.strs
  | .failed _ => True

namespace Scheduler

variable {scheduler before after : Scheduler} {act : Act}
  {allowed : Scheduler → Act → Prop} {run : RunId} {consumer : ConsumerId}
  {mailbox : MailboxId} {query : QueryId} {reply : Reply}

section Sources

/-- All tickets are of the run, and all outputs are strings. -/
structure Sourced (run : RunId) (scheduler : Scheduler) : Prop where
  sameRun : scheduler.run = run
  created : ∀ {id cached}, scheduler.table.cache.get? id = some cached →
    ∃ lambda bindings, cached = Ticket.create run lambda bindings
  literal : scheduler.Stores fun term => ∃ text, term = .str text

theorem sourced_start (run : RunId) : (start run).Sourced run where
  sameRun := rfl
  created := by simp [start]
  literal _ _ stored := by simp [start] at stored

theorem Sourced.untouched (sourced : before.Sourced run)
    (untouched : Untouched before after) : after.Sourced run where
  sameRun := untouched.run.trans sourced.sameRun
  created found := sourced.created (untouched.cache ▸ found)
  literal _ _ stored := sourced.literal (untouched.results ▸ stored)

theorem results_act (consistent : scheduler.table.Consistent) :
    (scheduler.act act).table.results = scheduler.table.results := by
  obtain ⟨_, untouched | ⟨consumer, query, ticket, asked⟩⟩ :=
    scheduler.act_cases act consistent
  · exact untouched.results
  · rw [asked.table, TicketTable.results_request]

theorem Leads.results (leads : Leads allowed before after)
    (consistent : before.table.Consistent) :
    after.table.results = before.table.results := by
  let holds (later : Scheduler) : Prop :=
    later.table.Consistent ∧ later.table.results = before.table.results
  have kept {later : Scheduler} {act : Act} (given : holds later)
      (_ : allowed later act) : holds (later.act act) :=
    ⟨consistent_act given.1, (results_act given.1).trans given.2⟩
  have begins : holds before := ⟨consistent, rfl⟩
  exact (leads.keeps kept begins).2

theorem Stores.leads {good : Term → Prop} (stores : before.Stores good)
    (leads : Leads allowed before after) (consistent : before.table.Consistent) :
    after.Stores good :=
  fun _ _ stored => stores (leads.results consistent ▸ stored)

/-- After a reply, outputs are stored that were stored before or came with it. -/
theorem Stores.replied {good : Term → Prop} (stores : scheduler.Stores good)
    (consistent : scheduler.table.Consistent)
    (brings : ∀ {ticket outputs report}, reply = .finished ticket outputs report →
      ∀ value ∈ outputs, ∀ term ∈ value, good term) :
        (scheduler.reply reply).Stores good := by
  intro id outputs stored
  rw [(untouched_reply consistent reply).1.results] at stored
  rcases TicketTable.results_reply stored with before | ⟨report, same⟩
  · exact stores before
  · exact brings same

theorem Sourced.acted (sourced : scheduler.Sourced run)
    (consistent : scheduler.table.Consistent) : (scheduler.act act).Sourced run := by
  obtain ⟨_, untouched | ⟨consumer, query, ticket, asked⟩⟩ :=
    scheduler.act_cases act consistent
  · exact sourced.untouched untouched
  · exact
      { sameRun := by
          rw [Scheduler.run, asked.table, TicketTable.run_request]
          exact sourced.sameRun
        created := by
          intro id cached found
          rw [asked.table] at found
          rcases TicketTable.cache_request found with before | rfl
          · exact sourced.created before
          · exact sourced.sameRun ▸ asked.created
        literal := fun _ _ stored => sourced.literal (results_act consistent ▸ stored) }

theorem Sourced.leads (sourced : before.Sourced run)
    (consistent : before.table.Consistent) (leads : Leads allowed before after) :
    after.Sourced run := by
  let holds (later : Scheduler) : Prop := later.table.Consistent ∧ later.Sourced run
  have kept {later : Scheduler} {act : Act} (given : holds later)
      (_ : allowed later act) : holds (later.act act) :=
    ⟨consistent_act given.1, given.2.acted given.1⟩
  have begins : holds before := ⟨consistent, sourced⟩
  exact (leads.keeps kept begins).2

theorem Sourced.replied (sourced : scheduler.Sourced run)
    (consistent : scheduler.table.Consistent) (literal : reply.IsLiteral) :
    (scheduler.reply reply).Sourced run := by
  have untouched := (untouched_reply consistent reply).1
  exact
    { sameRun := untouched.run.trans
        ((TicketTable.run_reply scheduler.table reply).trans sourced.sameRun)
      created := fun found =>
        sourced.created (TicketTable.cache_reply (untouched.cache ▸ found))
      literal := by
        refine sourced.literal.replied consistent fun {ticket outputs report} same => ?_
        subst same
        obtain ⟨texts, rfl⟩ := literal
        intro value member term inside
        obtain ⟨values, _, rfl⟩ := List.mem_map.mp member
        obtain ⟨text, _, rfl⟩ := List.mem_map.mp inside
        exact ⟨text, rfl⟩ }

/-- A query that has a seat, is tracked by its own consumer and has not
failed is attended to. -/
theorem Sourced.attends (sourced : scheduler.Sourced run)
    (consistent : scheduler.table.Consistent) (seats : scheduler.Seats consumer mailbox)
    (unfailed : query ∉ scheduler.table.failed)
    (tracks : scheduler.table.isTracked query = true →
      query ∈ scheduler.table.trackedBy consumer) : scheduler.Attends consumer query where
  consistent := consistent
  created found := sourced.sameRun ▸ sourced.created found
  literal := fun stored => sourced.literal stored
  tracked waits := tracks (consistent.tracked waits)
  unfailed := unfailed
  heard := ⟨mailbox, seats.address, seats.held⟩

end Sources

section Upkeep

/-- The consumer keeps its seat and its mail; the query waits, or has failed, as before;
no outputs come or go. -/
structure Upholds (consumer : ConsumerId) (mailbox : MailboxId)
    (query : QueryId) (before after : Scheduler) :
    Prop extends Spares consumer mailbox query before after where
  unfailed : query ∈ after.table.failed → query ∈ before.table.failed
  results : after.table.results = before.table.results

theorem Leads.upholds (leads : Leads allowed before after)
    (consistent : before.table.Consistent) (seats : before.Seats consumer mailbox)
    (other : ∀ {scheduler act}, allowed scheduler act → ¬act.Concerns consumer mailbox query) :
    Upholds consumer mailbox query before after := by
  let holds (later : Scheduler) : Prop :=
    later.table.Consistent ∧ (query ∈ later.table.failed → query ∈ before.table.failed)
  have kept {later : Scheduler} {act : Act} (given : holds later)
      (_ : allowed later act) : holds (later.act act) :=
    ⟨consistent_act given.1, fun failed => given.2 (failed_of_act given.1 failed)⟩
  have begins : holds before := ⟨consistent, id⟩
  obtain ⟨_, unfailed⟩ := leads.keeps kept begins
  exact
    { leads.spares consistent seats other with unfailed, results := leads.results consistent }

theorem Upholds.retains (upholds : Upholds consumer mailbox query before after)
    (consistent : before.table.Consistent)
    (tracks : before.table.isTracked query = true → query ∈ before.table.trackedBy consumer) :
    Retains query before.table after.table := by
  rintro id (waits | ⟨outputs, stored⟩)
  · exact .inl (upholds.waits (tracks (consistent.tracked waits)) waits)
  · exact .inr ⟨outputs, upholds.results ▸ stored⟩

/-- The reply to a pending ticket drops no outputs. -/
theorem stored_reply (consistent : scheduler.table.Consistent)
    (pending : scheduler.table.isPending reply.ticket = true) {id : TicketId}
    {outputs : List Compound} (stored : scheduler.table.results.get? id = some outputs) :
    (scheduler.reply reply).table.results.get? id = some outputs := by
  have apart : reply.ticket ≠ id := by
    rintro rfl
    simp [TicketTable.isPending, OrderedMap.contains, stored] at pending
  rw [(untouched_reply consistent reply).1.results]
  exact (TicketTable.get?_reply_of_ne apart).2.trans stored

variable (seats : scheduler.Seats consumer mailbox)
  (consistent : scheduler.table.Consistent)
  (tracks : scheduler.table.isTracked query = true →
  query ∈ scheduler.table.trackedBy consumer)
include seats consistent tracks

/-- The query fails by a reply if it waits for the ticket that fails, and
stays failed if it was. -/
theorem mem_failed_reply_iff :
    query ∈ (scheduler.reply reply).table.failed ↔ query ∈ scheduler.table.failed ∨
      reply.ticket ∈ scheduler.table.outstandingOf query ∧
        ∃ failure,
          (scheduler.table.standingOf reply.ticket).verdict reply = .fails failure := by
  rw [← TicketTable.mem_failed_reply consistent.toIndexed]
  refine ⟨(of_reply consistent reply).2.1, fun failed => ?_⟩
  have spares : Spares consumer mailbox query _ (scheduler.reply reply) :=
    spares_reply seats consistent reply
  refine spares.failed ?_ failed
  have still : (scheduler.table.reply reply).2.isTracked query = true :=
    (consistent.perform (.reply reply)).failedTracked failed
  rw [TicketTable.isTracked_congr TicketTable.tracking_reply] at still
  exact (TicketTable.trackedBy_congr TicketTable.tracking_reply).symm ▸ tracks still

/-- A query goes on waiting for a ticket that no reply finishes, unless it fails. -/
theorem outstandingOf_reply {id : TicketId}
    (waits : id ∈ scheduler.table.outstandingOf query)
    (unfinished : ¬(reply.ticket = id ∧
      (scheduler.table.standingOf reply.ticket).verdict reply = .accepted))
    (unfailed : query ∉ (scheduler.reply reply).table.failed) :
    id ∈ (scheduler.reply reply).table.outstandingOf query := by
  have spares : Spares consumer mailbox query _ (scheduler.reply reply) :=
    spares_reply seats consistent reply
  refine spares.waits ?_ ((TicketTable.mem_outstandingOf_reply consistent.toIndexed).mpr
    ⟨waits, unfinished, fun fails => ?_⟩)
  · exact (TicketTable.trackedBy_congr TicketTable.tracking_reply).symm ▸
      tracks (consistent.tracked waits)
  · exact unfailed ((mem_failed_reply_iff seats consistent tracks).mpr (.inr fails))

theorem retains_reply (pending : scheduler.table.isPending reply.ticket = true)
    (unfailed : query ∉ (scheduler.reply reply).table.failed) :
    Retains query scheduler.table (scheduler.reply reply).table := by
  rintro id (waits | ⟨outputs, stored⟩)
  · by_cases finished : reply.ticket = id ∧
      (scheduler.table.standingOf reply.ticket).verdict reply = .accepted
    · obtain ⟨rfl, accepted⟩ := finished
      obtain ⟨_, outputs, _, _, _, _, _, answer⟩ := TicketTable.reply_accepted accepted
      refine .inr ⟨outputs, ?_⟩
      rw [(untouched_reply consistent reply).1.results, answer]
      exact OrderedMap.get?_insert_self
    · exact .inl (outstandingOf_reply seats consistent tracks waits finished unfailed)
  · exact .inr ⟨outputs, stored_reply consistent pending stored⟩

end Upkeep

end Scheduler

end TicketFlow
