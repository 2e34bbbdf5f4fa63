import TicketFlow.Proofs.Schedule.Acts

namespace TicketFlow

/-! What the scheduler remembers of a query.

A query that no consumer tracks is not mentioned anywhere in the table, and only
attached consumers track anything.  So a query is forgotten as soon as the last
consumer that tracks it releases it or leaves.
-/

namespace TicketTable

/-- Something in the table is about the query. -/
inductive Mentions (table : TicketTable) (query : QueryId) : Prop where
  | tracked {consumer : ConsumerId} (tracks : query ∈ table.trackedBy consumer)
  /-- An empty list of tickets counts too. -/
  | outstanding (listed : table.outstanding.contains query = true)
  | dependent {ticket : TicketId} (depends : query ∈ table.dependentsOf ticket)
  | failed (marked : query ∈ table.failed)

/-- Only queries that are tracked have a list of outstanding tickets. -/
def Listed (table : TicketTable) : Prop :=
  ∀ query, table.outstanding.contains query = true → table.isTracked query = true

variable {table : TicketTable} {query other : QueryId} {ticket : TicketId}
  {consumer : ConsumerId} {queries : List QueryId} {outputs : List Compound}

/-- Whatever is mentioned is tracked. -/
theorem Consistent.trackedBy_of_mentions (consistent : table.Consistent)
    (listed : table.Listed) (mentions : table.Mentions query) :
    ∃ consumer, query ∈ table.trackedBy consumer := by
  cases mentions with
  | tracked tracks => exact ⟨_, tracks⟩
  | outstanding listing => exact (isTracked_iff consistent.distinct).mp (listed _ listing)
  | dependent depends =>
      exact (isTracked_iff consistent.distinct).mp
        (consistent.tracked (consistent.related.mpr depends))
  | failed marked =>
      exact (isTracked_iff consistent.distinct).mp (consistent.failedTracked marked)

section Listing

theorem contains_addDependency :
    (table.addDependency query ticket).outstanding.contains other = true ↔
      other = query ∨ table.outstanding.contains other = true := by
  simp only [addDependency, OrderedMap.contains, OrderedMap.get?_insert]
  by_cases same : query = other
  · simp [same]
  · simp [same, Ne.symm same]

theorem contains_afterCompletion :
    (table.afterCompletion ticket outputs).outstanding.contains other =
      table.outstanding.contains other := by
  simp only [afterCompletion, OrderedMap.contains, get?_foldl_clearOne]
  split <;> simp

theorem contains_of_afterFailure
    (listing : (table.afterFailure ticket).outstanding.contains other = true) :
    table.outstanding.contains other = true := by
  rw [afterFailure, OrderedMap.contains, get?_outstanding_foldl_failQuery] at listing
  split at listing
  · simp at listing
  · exact listing

theorem contains_dropUntracked :
    (table.dropUntracked query).outstanding.contains other = true ↔
      table.outstanding.contains other = true ∧
      (other = query → table.isTracked query = true) := by
  unfold dropUntracked
  split
  next tracked => simp [tracked]
  next untracked =>
    simp only [forget, OrderedMap.contains, OrderedMap.get?_erase]
    by_cases same : query = other
    · subst same
      simp [untracked]
    · simp [same, Ne.symm same]

theorem contains_foldl_dropUntracked :
    (queries.foldl dropUntracked table).outstanding.contains other = true ↔
      table.outstanding.contains other = true ∧
      (other ∈ queries → table.isTracked other = true) := by
  induction queries generalizing table with
  | nil => simp
  | cons first rest ih =>
      rw [List.foldl_cons, ih, contains_dropUntracked,
        isTracked_congr dropUntracked_frame.2.2]
      by_cases same : other = first
      · subst same
        simp only [List.mem_cons, true_or, forall_const]
        tauto
      · simp [same]

theorem Listed.request (listed : table.Listed) (consistent : table.Consistent)
    (consumer : ConsumerId) (query : QueryId) (ticket : Ticket) :
    (table.request consumer query ticket).2.Listed := by
  intro other listing
  have tracks (known : other = query ∨ table.outstanding.contains other = true) :
      (table.track consumer query).isTracked other = true :=
    (isTracked_track consistent.distinct).mpr (known.imp_right (listed other))
  rcases table.request_cases consumer query ticket with
    ⟨_, _, _, _, same⟩ | ⟨_, _, _, same⟩ | ⟨_, same⟩ <;> rw [same] at listing ⊢
  · exact tracks (.inr listing)
  · exact tracks (contains_addDependency.mp listing)
  · exact tracks (contains_addDependency.mp listing)

theorem Listed.reply (listed : table.Listed) (reply : Reply) :
    (table.reply reply).2.Listed := by
  intro query listing
  rw [isTracked_congr tracking_reply]
  refine listed query ?_
  cases verdict : (table.standingOf reply.ticket).verdict reply with
  | ignored => rwa [reply_ignored verdict] at listing
  | accepted =>
      obtain ⟨_, _, _, _, _, _, _, answer⟩ := reply_accepted verdict
      rwa [answer, contains_afterCompletion] at listing
  | fails failure =>
      rw [reply_fails verdict] at listing
      exact contains_of_afterFailure listing

theorem Listed.release (listed : table.Listed) (consistent : table.Consistent)
    (consumer : ConsumerId) (query : QueryId) :
    (table.release consumer query).Listed := by
  intro other listing
  have distinct : (table.untrack consumer query).tracking.Distinct :=
    consistent.distinct.modify
  obtain ⟨before, kept⟩ :=
    (@contains_dropUntracked (table.untrack consumer query) query other).mp listing
  have same : (table.release consumer query).isTracked other =
      (table.untrack consumer query).isTracked other :=
    isTracked_congr dropUntracked_frame.2.2
  rw [same]
  by_cases named : other = query
  · exact named ▸ kept named
  · obtain ⟨someone, found⟩ :=
      (isTracked_iff consistent.distinct).mp (listed other before)
    exact (isTracked_iff distinct).mpr
      ⟨someone, mem_trackedBy_untrack.mpr ⟨found, by simp [named]⟩⟩

theorem Listed.detach (listed : table.Listed) (consistent : table.Consistent)
    (consumer : ConsumerId) : (table.detach consumer).Listed := by
  intro other listing
  have distinct : (table.untrackAll consumer).tracking.Distinct :=
    consistent.distinct.erase
  obtain ⟨before, kept⟩ :=
    (@contains_foldl_dropUntracked (table.untrackAll consumer) other
      (table.trackedBy consumer)).mp listing
  have same : (table.detach consumer).isTracked other =
      (table.untrackAll consumer).isTracked other :=
    isTracked_congr foldl_dropUntracked_frame.2.2
  rw [same]
  by_cases ours : other ∈ table.trackedBy consumer
  · exact kept ours
  · obtain ⟨someone, found⟩ :=
      (isTracked_iff consistent.distinct).mp (listed other before)
    have apart : someone ≠ consumer := fun same => ours (same ▸ found)
    exact (isTracked_iff distinct).mpr ⟨someone, mem_trackedBy_untrackAll.mpr ⟨found, apart⟩⟩

theorem Listed.perform (listed : table.Listed) (consistent : table.Consistent)
    (operation : Operation) : (table.perform operation).2.Listed := by
  cases operation with
  | request consumer query ticket => exact listed.request consistent consumer query ticket
  | reply reply => exact listed.reply reply
  | release consumer query => exact listed.release consistent consumer query
  | detach consumer => exact listed.detach consistent consumer

end Listing

end TicketTable

namespace Scheduler

/-- Nothing is remembered but of queries that attached consumers track. -/
structure Tidy (scheduler : Scheduler) : Prop where
  consistent : scheduler.table.Consistent
  listed : scheduler.table.Listed
  attached :
    ∀ {consumer query}, query ∈ scheduler.table.trackedBy consumer →
    scheduler.isAttached consumer = true

variable {scheduler after : Scheduler} {query : QueryId} {consumer : ConsumerId}

theorem tidy_start (run : RunId) : (Scheduler.start run).Tidy where
  consistent := TicketTable.consistent_empty run
  listed query listing := by simp [start, OrderedMap.contains] at listing
  attached tracked := by simp [start, TicketTable.trackedBy] at tracked

/-- A released query is not tracked by the consumer, and a consumer
that left tracks nothing. -/
theorem untracked_act {act : Act}
    (given : act = .release consumer query ∨ act = .detach consumer) :
    query ∉ (scheduler.act act).table.trackedBy consumer := by
  rcases given with rfl | rfl <;> intro tracked
  · have tracked : query ∈
        (scheduler.table.perform (.release consumer query)).2.trackedBy consumer :=
      tracked
    rcases TicketTable.mem_trackedBy_perform.mp tracked with ⟨_, asks⟩ | ⟨_, kept, _⟩
    · cases asks
    · exact kept rfl
  · have tracked : query ∈
        (scheduler.table.perform (.detach consumer)).2.trackedBy consumer := tracked
    rcases TicketTable.mem_trackedBy_perform.mp tracked with ⟨_, asks⟩ | ⟨_, _, kept⟩
    · cases asks
    · exact kept rfl

/-- A request is refused to a consumer that is not attached. -/
theorem act_request_of_not_attached {apply : Apply}
    (stranger : scheduler.isAttached consumer = false) :
    scheduler.act (.request consumer query apply) = scheduler := by
  cases requested : scheduler.request consumer query apply with
  | error fault => simp [act, requested]
  | ok granted =>
      unfold request at requested
      split at requested
      · cases requested
      · simp [stranger] at requested

theorem isAttached_act {act : Act} (attached : scheduler.isAttached consumer = true)
    (stays : act ≠ .detach consumer) :
    (scheduler.act act).isAttached consumer = true := by
  by_cases attaches : act = .attach consumer
  · subst attaches
    simp [isAttached, Scheduler.act, attach, OrderedMap.contains]
  · rw [isAttached, OrderedMap.contains, address_act attaches stays]
    exact attached

/-- Every act leaves the scheduler tidy. -/
theorem Tidy.act (tidy : scheduler.Tidy) (act : Act) : (scheduler.act act).Tidy where
  consistent := consistent_act tidy.consistent
  listed := by
    rcases scheduler.table_act act with same | ⟨operation, same, _⟩ <;> rw [same]
    · exact tidy.listed
    · exact tidy.listed.perform tidy.consistent operation
  attached := by
    intro consumer query tracked
    have stays : act ≠ .detach consumer :=
      fun leaves => untracked_act (.inr leaves) tracked
    rcases trackedBy_of_act tracked with before | ⟨apply, rfl⟩
    · exact isAttached_act (tidy.attached before) stays
    · cases attached : scheduler.isAttached consumer with
      | true => exact isAttached_act attached stays
      | false =>
          rw [act_request_of_not_attached attached] at tracked
          rw [tidy.attached tracked] at attached
          cases attached

/-- So does a reply, whose events detach whoever let go of its mailbox. -/
theorem Tidy.reply (tidy : scheduler.Tidy) (reply : Reply) :
    (scheduler.reply reply).Tidy := by
  have accepted :
      ({ scheduler with table := (scheduler.table.reply reply).2 } : Scheduler).Tidy :=
    { consistent := tidy.consistent.perform (.reply reply)
      listed := tidy.listed.reply reply
      attached := fun tracked =>
        tidy.attached (TicketTable.trackedBy_congr TicketTable.tracking_reply ▸ tracked) }
  rw [reply_eq]
  have mailed {later : Scheduler} {id : MailboxId} {event : QueryEvent}
      (given : later.Tidy) : (later.updateMailbox id
      fun mailbox => { mailbox with events := mailbox.events ++ [event] }).Tidy :=
    ⟨given.consistent, given.listed, given.attached⟩
  have detached {later : Scheduler} {other : ConsumerId} {id : MailboxId}
      (given : later.Tidy) (_ : later.addresses.get? other = some id)
      (_ : (later.mailbox id).isHeld = false) : (later.detach other).Tidy :=
    given.act (.detach other)
  exact foldl_deliver mailed detached accepted

theorem Tidy.leads {allowed : Scheduler → Act → Prop} (tidy : scheduler.Tidy)
    (leads : Leads allowed scheduler after) : after.Tidy :=
  leads.keeps (fun {_ act} given _ => given.act act) tidy

end Scheduler

end TicketFlow
