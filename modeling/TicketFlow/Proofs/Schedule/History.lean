import TicketFlow.Proofs.Schedule.Consistency

namespace TicketFlow.TicketTable

/-! The ticket table read off the history of its operations.

What became of a ticket, who tracks a query and what a query waits for are
first said of a history alone.  Replaying the history gives a table that says
the same, and the next reply is answered as the history demands.
-/

section Vocabulary

/-- Operations, the latest first. -/
abbrev History := List Operation

def replay (run : RunId) : History → TicketTable
  | [] => { run }
  | operation :: earlier => ((replay run earlier).perform operation).2

/-- What became of a ticket so far. -/
inductive Standing where
  | unknown
  | pending (cached : Ticket)
  | done (cached : Ticket)

/-- What a reply counts for. -/
inductive Verdict where
  | ignored
  | accepted
  | fails (failure : Failure)

namespace Standing

def verdict : Standing → Reply → Verdict
  | .unknown, _ => .ignored
  | .pending cached, .finished ticket outputs _ =>
      if outputs.length = cached.arity then .accepted else
        .fails (wrongCount ticket cached outputs.length)
  | .done _, .finished .. => .ignored
  | _, .failed failure => .fails failure

/-- A first request makes a ticket known; a failure makes it unknown again. -/
def after (standing : Standing) (id : TicketId) : Operation → Standing
  | .request _ _ ticket =>
      match standing with
      | .unknown => if ticket.id = id then .pending ticket else .unknown
      | known => known
  | .reply reply =>
      if reply.ticket = id then
        match standing, standing.verdict reply with
        | .pending cached, .accepted => .done cached
        | _, .fails _ => .unknown
        | _, _ => standing
      else standing
  | _ => standing

end Standing

namespace History

def standing : History → TicketId → Standing
  | [], _ => .unknown
  | operation :: earlier, id => (standing earlier id).after id operation

def verdict (history : History) (reply : Reply) : Verdict :=
  (history.standing reply.ticket).verdict reply

/-- The ticket has no stored result. -/
def Unfinished (history : History) (id : TicketId) : Prop :=
  ∀ cached, history.standing id ≠ .done cached

/-- The operation is a completion of the ticket that is accepted at this moment. -/
def Completes (history : History) (operation : Operation) (id : TicketId) : Prop :=
  ∃ reply, operation = .reply reply ∧ reply.ticket = id ∧ history.verdict reply = .accepted

/-- The operation fails the ticket, by a failure or by a wrong number of outputs. -/
def Fails (history : History) (operation : Operation) (id : TicketId) : Prop :=
  ∃ reply failure, operation = .reply reply ∧ reply.ticket = id ∧
    history.verdict reply = .fails failure

/-- The consumer made a request for the query, and neither released it nor detached since. -/
def Tracks (history : History) (consumer : ConsumerId) (query : QueryId) : Prop :=
  ∃ later ticket earlier, history = later ++ .request consumer query ticket :: earlier ∧
    .release consumer query ∉ later ∧ .detach consumer ∉ later

/-- The query asked for the ticket while it had no result.  Since then no completion of
the ticket was accepted, no ticket the query was waiting for failed, and the query was
tracked all the time. -/
def WaitsSince (waits : History → QueryId → TicketId → Prop) (history : History)
    (query : QueryId) (id : TicketId) : Prop :=
  ∃ later consumer ticket earlier,
    history = later ++ .request consumer query ticket :: earlier ∧ ticket.id = id ∧
    Unfinished earlier id ∧
    ∀ newer operation between, later = newer ++ operation :: between →
      ∃ moment, moment = between ++ .request consumer query ticket :: earlier ∧
        ¬Completes moment operation id ∧
        (∀ another, waits moment query another → ¬Fails moment operation another) ∧
        ∃ someone, Tracks (operation :: moment) someone query

end History

/-- One event for each pair of a query and a consumer that are concerned,
in the order of both. -/
def Announced (concerned : QueryId → ConsumerId → Prop) (event : QueryId → QueryEvent)
    (deliveries : Deliveries) : Prop :=
  ∃ pairs : List (QueryId × ConsumerId),
    pairs.Pairwise (fun left right => left.1.number < right.1.number ∨
      left.1 = right.1 ∧ left.2.number < right.2.number) ∧
    (∀ query consumer, (query, consumer) ∈ pairs ↔ concerned query consumer) ∧
    deliveries = pairs.map fun pair => (pair.2, event pair.1)

/-- The answer to a reply: the events to deliver, and what becomes of the table. -/
def Answered (table : TicketTable) (history : History) (reply : Reply)
    (deliveries : Deliveries) (after : TicketTable) : Prop :=
  let concerned := fun query consumer =>
    reply.ticket ∈ table.outstandingOf query ∧ history.Tracks consumer query
  match history.verdict reply, reply with
  | .accepted, .finished ticket _ report =>
      Announced concerned (fun query => .ticketFinished query ticket report) deliveries
  | .fails failure, _ =>
      Announced concerned (fun query => .queryFailed query failure) deliveries ∧
        (∀ query, query ∈ after.failed ↔ reply.ticket ∈ table.outstandingOf query ∨
          query ∈ table.failed) ∧ ∀ query, reply.ticket ∉ table.outstandingOf query →
          after.outstandingOf query = table.outstandingOf query
  | _, _ => deliveries = [] ∧ after = table

end Vocabulary

variable {table : TicketTable} {history : History} {operation : Operation}
  {query : QueryId} {consumer : ConsumerId} {id : TicketId} {reply : Reply}
  {failure : Failure}

section Moments

theorem History.tracks_cons :
    Tracks (operation :: history) consumer query ↔
      (∃ ticket, operation = .request consumer query ticket) ∨
        Tracks history consumer query ∧ operation ≠ .release consumer query ∧
          operation ≠ .detach consumer := by
  constructor
  · rintro ⟨later, ticket, earlier, split, unreleased, undetached⟩
    cases later with
    | nil =>
        rw [List.nil_append, List.cons.injEq] at split
        exact .inl ⟨ticket, split.1⟩
    | cons latest later =>
        rw [List.cons_append, List.cons.injEq] at split
        obtain ⟨rfl, split⟩ := split
        rw [List.mem_cons, not_or] at unreleased undetached
        exact .inr ⟨⟨later, ticket, earlier, split, unreleased.2, undetached.2⟩,
          Ne.symm unreleased.1, Ne.symm undetached.1⟩
  · rintro (⟨ticket, rfl⟩ |
        ⟨⟨later, ticket, earlier, split, unreleased, undetached⟩, kept, stayed⟩)
    · exact ⟨[], ticket, history, rfl, List.not_mem_nil, List.not_mem_nil⟩
    · refine ⟨operation :: later, ticket, earlier, by rw [split, List.cons_append], ?_, ?_⟩
      · simpa [Ne.symm kept] using unreleased
      · simpa [Ne.symm stayed] using undetached

/-- Waiting goes on from one moment to the next. -/
theorem History.waitsSince_cons {waits : History → QueryId → TicketId → Prop} :
    WaitsSince waits (operation :: history) query id ↔
      (∃ consumer ticket, operation = .request consumer query ticket ∧ ticket.id = id ∧
          history.Unfinished id) ∨
        WaitsSince waits history query id ∧ ¬history.Completes operation id ∧
          (∀ another, waits history query another → ¬history.Fails operation another) ∧
          ∃ someone, Tracks (operation :: history) someone query := by
  constructor
  · rintro ⟨later, consumer, ticket, earlier, split, named, unfinished, steady⟩
    cases later with
    | nil =>
        rw [List.nil_append, List.cons.injEq] at split
        obtain ⟨rfl, rfl⟩ := split
        exact .inl ⟨consumer, ticket, rfl, named, unfinished⟩
    | cons latest later =>
        rw [List.cons_append, List.cons.injEq] at split
        obtain ⟨rfl, rfl⟩ := split
        obtain ⟨moment, rfl, now⟩ := steady [] operation later rfl
        refine .inr ⟨⟨later, consumer, ticket, earlier, rfl, named, unfinished, ?_⟩, now⟩
        intro newer previous between split
        exact steady (operation :: newer) previous between (by rw [split, List.cons_append])
  · rintro (⟨consumer, ticket, rfl, named, unfinished⟩ |
      ⟨⟨later, consumer, ticket, earlier, split, named, unfinished, steady⟩, now⟩)
    · exact ⟨[], consumer, ticket, history, rfl, named, unfinished, by simp⟩
    · refine ⟨operation :: later, consumer, ticket, earlier,
        by rw [split, List.cons_append], named, unfinished, ?_⟩
      intro newer previous between inside
      cases newer with
      | nil =>
          rw [List.nil_append, List.cons.injEq] at inside
          obtain ⟨rfl, rfl⟩ := inside
          exact ⟨history, split, now⟩
      | cons latest newer =>
          rw [List.cons_append, List.cons.injEq] at inside
          exact steady newer previous between inside.2

end Moments

section Standing

/-- Where the table keeps a ticket tells what became of it. -/
def standingOf (table : TicketTable) (id : TicketId) : Standing :=
  match table.cache.get? id, table.results.get? id with
  | none, _ => .unknown
  | some cached, none => .pending cached
  | some cached, some _ => .done cached

theorem standingOf_congr {first second : TicketTable}
    (cache : first.cache.get? id = second.cache.get? id)
    (results : first.results.get? id = second.results.get? id) :
    first.standingOf id = second.standingOf id := by
  rw [standingOf, cache, results, ← standingOf]

theorem standingOf_pending {cached : Ticket} (known : table.cache.get? id = some cached)
    (unfinished : table.results.get? id = none) :
    table.standingOf id = .pending cached := by
  rw [standingOf, known, unfinished]

theorem standingOf_eq_unknown_iff :
    table.standingOf id = .unknown ↔ table.cache.get? id = none := by
  unfold standingOf
  split <;> simp_all

theorem unfinished_iff (indexed : table.Indexed) :
    (∀ cached, table.standingOf id ≠ .done cached) ↔ table.results.get? id = none := by
  unfold standingOf
  split
  next unknown =>
    cases result : table.results.get? id with
    | none => simp
    | some outputs =>
        obtain ⟨cached, found, _⟩ := indexed.stored result
        simp [found] at unknown
  next _ unfinished => simp [unfinished]
  next finished => simp [finished]

/-- What the table answers to a reply that counts for nothing. -/
theorem reply_ignored
    (ignored : (table.standingOf reply.ticket).verdict reply = .ignored) :
    table.reply reply = ([], table) := by
  cases reply with
  | finished ticket outputs report =>
      simp only [Reply.ticket, standingOf] at ignored
      cases known : table.cache.get? ticket with
      | none => exact finish_unknown known
      | some cached =>
          cases stored : table.results.get? ticket with
          | some before => exact finish_repeated stored
          | none =>
              simp only [known, stored, Standing.verdict] at ignored
              split at ignored <;> simp at ignored
  | failed failure =>
      simp only [Reply.ticket, standingOf] at ignored
      cases known : table.cache.get? failure.ticket with
      | none => exact fail_unknown known
      | some cached =>
          cases stored : table.results.get? failure.ticket <;> simp [known, stored,
            Standing.verdict] at ignored

theorem reply_accepted
    (accepted : (table.standingOf reply.ticket).verdict reply = .accepted) :
    ∃ cached outputs report, reply = .finished reply.ticket outputs report ∧
      table.cache.get? reply.ticket = some cached ∧
      table.results.get? reply.ticket = none ∧ outputs.length = cached.arity ∧
      table.reply reply =
        (table.deliveries reply.ticket fun query => .ticketFinished query reply.ticket report,
          table.afterCompletion reply.ticket outputs) := by
  cases reply with
  | finished ticket outputs report =>
      simp only [Reply.ticket, standingOf] at accepted ⊢
      cases known : table.cache.get? ticket with
      | none => simp [known, Standing.verdict] at accepted
      | some cached =>
          cases stored : table.results.get? ticket with
          | some before => simp [known, stored, Standing.verdict] at accepted
          | none =>
              simp only [known, stored, Standing.verdict] at accepted
              split at accepted
              next counted =>
                exact ⟨cached, outputs, report, rfl, rfl, rfl, counted,
                  finish_accepted known stored counted⟩
              next => simp at accepted
  | failed failure =>
      unfold standingOf at accepted
      split at accepted <;> simp [Standing.verdict] at accepted

theorem reply_fails
    (fails : (table.standingOf reply.ticket).verdict reply = .fails failure) :
    table.reply reply =
      (table.deliveries reply.ticket fun query => .queryFailed query failure,
        table.afterFailure reply.ticket) := by
  cases reply with
  | finished ticket outputs report =>
      simp only [Reply.ticket, standingOf] at fails
      cases known : table.cache.get? ticket with
      | none => simp [known, Standing.verdict] at fails
      | some cached =>
          cases stored : table.results.get? ticket with
          | some before => simp [known, stored, Standing.verdict] at fails
          | none =>
              simp only [known, stored, Standing.verdict] at fails
              split at fails
              next => simp at fails
              next miscounted =>
                rw [Verdict.fails.injEq] at fails
                subst fails
                exact finish_miscounted known stored miscounted
  | failed told =>
      simp only [Reply.ticket, standingOf] at fails
      cases known : table.cache.get? told.ticket with
      | none => simp [known, Standing.verdict] at fails
      | some cached =>
          have same : told = failure := by
            cases stored : table.results.get? told.ticket <;>
              simpa [known, stored, Standing.verdict] using fails
          subst same
          exact fail_known known

theorem standingOf_afterCompletion {cached : Ticket} {outputs : List Compound}
    {another : TicketId} (known : table.cache.get? id = some cached) :
    (table.afterCompletion id outputs).standingOf another =
      if id = another then .done cached else table.standingOf another := by
  by_cases same : id = another
  · subst same
    simp [standingOf, afterCompletion, known]
  · simp [standingOf, afterCompletion, OrderedMap.get?_insert, same]

theorem standingOf_afterFailure {another : TicketId} :
    (table.afterFailure id).standingOf another =
      if id = another then .unknown else table.standingOf another := by
  simp only [standingOf, afterFailure_frame.1, afterFailure_frame.2.1,
    OrderedMap.get?_erase]
  by_cases same : id = another <;> simp [same]

theorem Consistent.standingOf_request (consistent : table.Consistent) (ticket : Ticket) :
    (table.request consumer query ticket).2.standingOf id =
      (table.standingOf id).after id (.request consumer query ticket) := by
  have finished {cached : Ticket}
      (known : table.cache.get? ticket.id = some cached) : table.standingOf id =
      (table.standingOf id).after id (.request consumer query ticket) := by
    cases found : table.standingOf id with
    | unknown =>
        have apart : ticket.id ≠ id := by
          rintro rfl
          simp [standingOf_eq_unknown_iff.mp found] at known
        simp [Standing.after, apart]
    | pending before => rfl
    | done before => rfl
  rcases table.request_cases consumer query ticket with
    ⟨cached, outputs, known, _, same⟩ | ⟨cached, known, _, same⟩ | ⟨unknown, same⟩ <;>
      rw [same]
  · exact finished known
  · exact finished known
  · by_cases asked : ticket.id = id
    · subst asked
      have unfinished : table.results.get? ticket.id = none := by
        refine (unfinished_iff consistent.toIndexed).mp fun cached found => ?_
        rw [standingOf_eq_unknown_iff.mpr unknown] at found
        simp at found
      rw [standingOf_eq_unknown_iff.mpr unknown, Standing.after, if_pos rfl]
      exact standingOf_pending OrderedMap.get?_insert_self unfinished
    · have kept : (table.standingOf id).after id (.request consumer query ticket) =
          table.standingOf id := by
        cases found : table.standingOf id <;> simp [Standing.after, asked]
      rw [kept]
      exact standingOf_congr (OrderedMap.get?_insert_of_ne asked) rfl

theorem standingOf_reply :
    (table.reply reply).2.standingOf id = (table.standingOf id).after id (.reply reply) := by
  cases verdict : (table.standingOf reply.ticket).verdict reply with
  | ignored =>
      rw [reply_ignored verdict]
      by_cases same : reply.ticket = id
      · subst same
        simp [Standing.after, verdict]
      · simp [Standing.after, same]
  | accepted =>
      obtain ⟨cached, outputs, report, _, known, unfinished, _, answer⟩ :=
        reply_accepted verdict
      rw [answer, standingOf_afterCompletion known]
      by_cases same : reply.ticket = id
      · subst same
        rw [standingOf_pending known unfinished] at verdict ⊢
        simp [Standing.after, verdict]
      · simp [Standing.after, same]
  | fails failure =>
      rw [reply_fails verdict, standingOf_afterFailure]
      by_cases same : reply.ticket = id
      · subst same
        simp [Standing.after, verdict]
      · simp [Standing.after, same]

theorem Consistent.standingOf_perform (consistent : table.Consistent) :
    (table.perform operation).2.standingOf id = (table.standingOf id).after id operation := by
  cases operation with
  | request consumer query ticket => exact consistent.standingOf_request ticket
  | reply reply => exact standingOf_reply
  | release consumer query =>
      exact standingOf_congr (congrArg (OrderedMap.get? · id) dropUntracked_frame.1)
        (congrArg (OrderedMap.get? · id) dropUntracked_frame.2.1)
  | detach consumer =>
      exact standingOf_congr (congrArg (OrderedMap.get? · id) foldl_dropUntracked_frame.1)
        (congrArg (OrderedMap.get? · id) foldl_dropUntracked_frame.2.1)

end Standing

section Tracking

variable {other : QueryId} {someone : ConsumerId}

theorem trackedBy_congr {first second : TicketTable}
    (same : first.tracking = second.tracking) :
    first.trackedBy consumer = second.trackedBy consumer := by
  rw [trackedBy, same, ← trackedBy]

theorem tracking_reply : (table.reply reply).2.tracking = table.tracking := by
  cases verdict : (table.standingOf reply.ticket).verdict reply with
  | ignored => rw [reply_ignored verdict]
  | accepted =>
      obtain ⟨_, _, _, _, _, _, _, answer⟩ := reply_accepted verdict
      rw [answer]
      rfl
  | fails failure => rw [reply_fails verdict, afterFailure_frame.2.2]

theorem mem_trackedBy_request {ticket : Ticket} :
    other ∈ (table.request consumer query ticket).2.trackedBy someone ↔
      (someone = consumer ∧ other = query) ∨ other ∈ table.trackedBy someone := by
  rw [← mem_trackedBy_track]
  rcases table.request_cases consumer query ticket with
    ⟨_, _, _, _, same⟩ | ⟨_, _, _, same⟩ | ⟨_, same⟩ <;> rw [same] <;> rfl

theorem mem_trackedBy_perform :
    query ∈ (table.perform operation).2.trackedBy consumer ↔
      (∃ ticket, operation = .request consumer query ticket) ∨
        query ∈ table.trackedBy consumer ∧ operation ≠ .release consumer query ∧
          operation ≠ .detach consumer := by
  cases operation with
  | request asking asked ticket =>
      simp only [perform, mem_trackedBy_request, Operation.request.injEq, ne_eq,
        reduceCtorEq, not_false_eq_true, and_true, exists_and_left, exists_eq']
      rw [eq_comm, eq_comm (a := query)]
  | reply reply => simp [perform, trackedBy_congr tracking_reply]
  | release releasing released =>
      have kept : (table.perform (.release releasing released)).2.trackedBy consumer =
          (table.untrack releasing released).trackedBy consumer :=
        trackedBy_congr dropUntracked_frame.2.2
      simp [kept, mem_trackedBy_untrack, eq_comm (a := releasing),
        eq_comm (a := released)]
  | detach leaving =>
      have kept : (table.perform (.detach leaving)).2.trackedBy consumer =
          (table.untrackAll leaving).trackedBy consumer :=
        trackedBy_congr foldl_dropUntracked_frame.2.2
      simp [kept, mem_trackedBy_untrackAll, eq_comm (a := leaving)]

end Tracking

section Outstanding

variable {another : TicketId}

theorem mem_outstandingOf_request (indexed : table.Indexed) {ticket : Ticket}
    {other : QueryId} : id ∈ (table.request consumer query ticket).2.outstandingOf other ↔
      (other = query ∧ ticket.id = id ∧ table.results.get? id = none) ∨
        id ∈ table.outstandingOf other := by
  rcases table.request_cases consumer query ticket with
    ⟨cached, outputs, _, finished, same⟩ | ⟨cached, _, unfinished, same⟩ |
      ⟨unknown, same⟩ <;> rw [same]
  · have complete : ¬(other = query ∧ ticket.id = id ∧ table.results.get? id = none) := by
      rintro ⟨_, rfl, unfinished⟩
      simp [finished] at unfinished
    simp [complete]
  · have asked : ticket.id = id ∧ table.results.get? id = none ↔ id = ticket.id := by
      constructor
      · exact fun both => both.1.symm
      · rintro rfl
        exact ⟨rfl, unfinished⟩
    rw [mem_outstandingOf_addDependency, asked]
    rfl
  · have asked : ticket.id = id ∧ table.results.get? id = none ↔ id = ticket.id := by
      constructor
      · exact fun both => both.1.symm
      · rintro rfl
        refine ⟨rfl, (unfinished_iff indexed).mp fun cached found => ?_⟩
        rw [standingOf_eq_unknown_iff.mpr unknown] at found
        simp at found
    rw [mem_outstandingOf_addDependency, asked]
    rfl

theorem mem_outstandingOf_reply (indexed : table.Indexed) :
    id ∈ (table.reply reply).2.outstandingOf query ↔
      id ∈ table.outstandingOf query ∧
        ¬(reply.ticket = id ∧ (table.standingOf reply.ticket).verdict reply = .accepted) ∧
        ¬(reply.ticket ∈ table.outstandingOf query ∧
          ∃ failure, (table.standingOf reply.ticket).verdict reply = .fails failure) := by
  cases verdict : (table.standingOf reply.ticket).verdict reply with
  | ignored => simp [reply_ignored verdict]
  | accepted =>
      obtain ⟨cached, outputs, report, _, _, _, _, answer⟩ := reply_accepted verdict
      rw [answer, mem_outstandingOf_afterCompletion indexed]
      simp [eq_comm (a := id)]
  | fails failure =>
      rw [reply_fails verdict, outstandingOf_afterFailure indexed]
      by_cases waits : reply.ticket ∈ table.outstandingOf query <;> simp [waits]

theorem Consistent.mem_outstandingOf_release (consistent : table.Consistent)
    {other : QueryId} : id ∈ (table.release consumer query).outstandingOf other ↔
      id ∈ table.outstandingOf other ∧
        (table.release consumer query).isTracked other = true := by
  have tracked : (table.release consumer query).isTracked other =
      (table.untrack consumer query).isTracked other :=
    isTracked_congr dropUntracked_frame.2.2
  have kept : (table.release consumer query).outstandingOf other =
      if other = query ∧ (table.untrack consumer query).isTracked query = false then []
      else table.outstandingOf other := outstandingOf_dropUntracked
  constructor
  · intro waits
    refine ⟨?_, (consistent.release consumer query).tracked waits⟩
    rw [kept] at waits
    split at waits
    · simp at waits
    · exact waits
  · rintro ⟨waits, stays⟩
    have still :
        ¬(other = query ∧ (table.untrack consumer query).isTracked query = false) := by
      rintro ⟨rfl, untracked⟩
      simp [tracked, untracked] at stays
    rw [kept, if_neg still]
    exact waits

theorem Consistent.mem_outstandingOf_detach (consistent : table.Consistent) :
    id ∈ (table.detach consumer).outstandingOf query ↔
      id ∈ table.outstandingOf query ∧ (table.detach consumer).isTracked query = true := by
  have tracked : (table.detach consumer).isTracked query =
      (table.untrackAll consumer).isTracked query :=
    isTracked_congr foldl_dropUntracked_frame.2.2
  have kept : (table.detach consumer).outstandingOf query =
      if query ∈ table.trackedBy consumer ∧
        (table.untrackAll consumer).isTracked query = false then []
      else table.outstandingOf query := outstandingOf_foldl_dropUntracked
  constructor
  · intro waits
    refine ⟨?_, (consistent.detach consumer).tracked waits⟩
    rw [kept] at waits
    split at waits
    · simp at waits
    · exact waits
  · rintro ⟨waits, stays⟩
    have still : ¬(query ∈ table.trackedBy consumer ∧
        (table.untrackAll consumer).isTracked query = false) := by
      rintro ⟨_, untracked⟩
      simp [tracked, untracked] at stays
    rw [kept, if_neg still]
    exact waits

end Outstanding

section Failed

theorem failed_request (table : TicketTable)
    (consumer : ConsumerId) (query : QueryId) (ticket : Ticket) :
    (table.request consumer query ticket).2.failed = table.failed := by
  rcases table.request_cases consumer query ticket with
    ⟨_, _, _, _, same⟩ | ⟨_, _, _, same⟩ | ⟨_, same⟩ <;> rw [same] <;> rfl

theorem mem_failed_reply (indexed : table.Indexed) :
    query ∈ (table.reply reply).2.failed ↔ query ∈ table.failed ∨
      reply.ticket ∈ table.outstandingOf query ∧
        ∃ failure, (table.standingOf reply.ticket).verdict reply = .fails failure := by
  cases verdict : (table.standingOf reply.ticket).verdict reply with
  | ignored => simp [reply_ignored verdict]
  | accepted =>
      obtain ⟨_, _, _, _, _, _, _, answer⟩ := reply_accepted verdict
      rw [answer]
      simp [afterCompletion]
  | fails failure =>
      rw [reply_fails verdict, mem_failed_afterFailure indexed]
      simp [or_comm]

/-- A query is marked when a ticket that it waits for fails, and stays
so while it is tracked. -/
theorem Consistent.mem_failed_perform (consistent : table.Consistent) :
    query ∈ (table.perform operation).2.failed ↔
      (query ∈ table.failed ∨ ∃ reply failure, operation = .reply reply ∧
        reply.ticket ∈ table.outstandingOf query ∧
        (table.standingOf reply.ticket).verdict reply = .fails failure) ∧
        (table.perform operation).2.isTracked query = true := by
  have tracked (marked : query ∈ (table.perform operation).2.failed) :=
    (consistent.perform operation).failedTracked marked
  cases operation with
  | request consumer asking ticket =>
      have same :
          (table.perform (.request consumer asking ticket)).2.failed = table.failed :=
        table.failed_request consumer asking ticket
      rw [same] at tracked ⊢
      simp only [reduceCtorEq, false_and, exists_false, or_false]
      exact ⟨fun marked => ⟨marked, tracked marked⟩, And.left⟩
  | reply reply =>
      have marks : query ∈ (table.perform (.reply reply)).2.failed ↔ _ :=
        mem_failed_reply consistent.toIndexed
      have fails : (∃ other failure, Operation.reply reply = .reply other ∧
          other.ticket ∈ table.outstandingOf query ∧
          (table.standingOf other.ticket).verdict other = .fails failure) ↔
            reply.ticket ∈ table.outstandingOf query ∧
              ∃ failure, (table.standingOf reply.ticket).verdict reply = .fails failure := by
        simp
      rw [fails, ← marks]
      exact ⟨fun marked => ⟨marked, tracked marked⟩, And.left⟩
  | release consumer released =>
      have untracked : (table.perform (.release consumer released)).2.isTracked released =
          (table.untrack consumer released).isTracked released :=
        isTracked_congr dropUntracked_frame.2.2
      have marks : query ∈ (table.perform (.release consumer released)).2.failed ↔
          query ∈ table.failed ∧
            (query = released → (table.untrack consumer released).isTracked released = true) :=
        mem_failed_dropUntracked
      simp only [reduceCtorEq, false_and, exists_false, or_false]
      refine ⟨fun marked => ⟨(marks.mp marked).1, tracked marked⟩,
        fun ⟨marked, stays⟩ => marks.mpr ⟨marked, ?_⟩⟩
      rintro rfl
      rw [← untracked]
      exact stays
  | detach consumer =>
      have untracked : (table.perform (.detach consumer)).2.isTracked query =
          (table.untrackAll consumer).isTracked query :=
        isTracked_congr foldl_dropUntracked_frame.2.2
      have marks : query ∈ (table.perform (.detach consumer)).2.failed ↔
          query ∈ table.failed ∧ (query ∈ table.trackedBy consumer →
            (table.untrackAll consumer).isTracked query = true) :=
        mem_failed_foldl_dropUntracked
      simp only [reduceCtorEq, false_and, exists_false, or_false]
      refine ⟨fun marked => ⟨(marks.mp marked).1, tracked marked⟩,
        fun ⟨marked, stays⟩ => marks.mpr ⟨marked, fun _ => ?_⟩⟩
      rw [← untracked]
      exact stays

end Failed

section Replay

/-- The table knows of tickets and consumers what the history says. -/
structure Reflects (history : History) (table : TicketTable) : Prop where
  consistent : table.Consistent
  standing : ∀ id, table.standingOf id = history.standing id
  tracks :
    ∀ consumer query, query ∈ table.trackedBy consumer ↔ history.Tracks consumer query

theorem Reflects.perform (reflects : Reflects history table) (operation : Operation) :
    Reflects (operation :: history) (table.perform operation).2 where
  consistent := reflects.consistent.perform operation
  standing id := by rw [reflects.consistent.standingOf_perform, reflects.standing,
    History.standing]
  tracks consumer
    query := by rw [mem_trackedBy_perform, History.tracks_cons, reflects.tracks]

theorem reflects_replay (run : RunId) (history : History) :
    Reflects history (replay run history) := by
  induction history with
  | nil =>
      exact
        { consistent := consistent_empty run
          standing := fun _ => rfl
          tracks := by simp [replay, trackedBy, History.Tracks] }
  | cons operation earlier ih => exact ih.perform operation

theorem Reflects.verdict (reflects : Reflects history table) :
    (table.standingOf reply.ticket).verdict reply = history.verdict reply := by
  rw [reflects.standing, ← History.verdict]

theorem Reflects.isTracked_iff (reflects : Reflects history table) :
    table.isTracked query = true ↔ ∃ consumer, history.Tracks consumer query := by
  simp only [TicketTable.isTracked_iff reflects.consistent.distinct, reflects.tracks]

/-- One operation changes what a query waits for as the history demands. -/
theorem Reflects.mem_outstandingOf_perform (reflects : Reflects history table) :
    id ∈ (table.perform operation).2.outstandingOf query ↔
      (∃ consumer ticket, operation = .request consumer query ticket ∧ ticket.id = id ∧
          history.Unfinished id) ∨
        id ∈ table.outstandingOf query ∧ ¬history.Completes operation id ∧
          (∀ another, another ∈ table.outstandingOf query → ¬history.Fails operation another) ∧
          ∃ someone, History.Tracks (operation :: history) someone query := by
  have indexed := reflects.consistent.toIndexed
  have after := reflects.perform operation
  rw [← after.isTracked_iff]
  have tracked (waits : id ∈ (table.perform operation).2.outstandingOf query) :=
    after.consistent.tracked waits
  cases operation with
  | request consumer asked ticket =>
      have unfinished : table.results.get? id = none ↔ history.Unfinished id := by
        rw [History.Unfinished, ← reflects.standing, unfinished_iff indexed]
      have waits : id ∈ (table.request consumer asked ticket).2.outstandingOf query ↔
          (query = asked ∧ ticket.id = id ∧ history.Unfinished id) ∨
          id ∈ table.outstandingOf query := by
        rw [← unfinished]
        exact mem_outstandingOf_request indexed
      constructor
      · intro now
        rcases waits.mp now with ⟨rfl, named, unfinished⟩ | before
        · exact .inl ⟨consumer, ticket, rfl, named, unfinished⟩
        · exact .inr
            ⟨before, by simp [History.Completes], by simp [History.Fails], tracked now⟩
      · rintro (⟨_, _, same, named, unfinished⟩ | ⟨before, _⟩)
        · obtain ⟨rfl, rfl, rfl⟩ := Operation.request.inj same
          exact waits.mpr (.inl ⟨rfl, named, unfinished⟩)
        · exact waits.mpr (.inr before)
  | reply reply =>
      have completes : history.Completes (.reply reply) id ↔
          reply.ticket = id ∧
            history.verdict reply = .accepted := by simp [History.Completes]
      have survives : (∀ another, another ∈ table.outstandingOf query →
          ¬history.Fails (.reply reply) another) ↔
          ¬(reply.ticket ∈ table.outstandingOf query ∧
            ∃ failure, history.verdict reply = .fails failure) := by
        constructor
        · rintro survives ⟨waits, failure, fails⟩
          exact survives reply.ticket waits ⟨reply, failure, rfl, rfl, fails⟩
        · rintro survives another waits ⟨_, failure, same, rfl, fails⟩
          obtain rfl := Operation.reply.inj same
          exact survives ⟨waits, failure, fails⟩
      have waits : id ∈ (table.reply reply).2.outstandingOf query ↔ _ :=
        mem_outstandingOf_reply indexed
      rw [reflects.verdict, ← completes, ← survives] at waits
      constructor
      · intro now
        obtain ⟨before, incomplete, survives⟩ := waits.mp now
        exact .inr ⟨before, incomplete, survives, tracked now⟩
      · rintro (⟨_, _, same, _⟩ | ⟨before, incomplete, survives, _⟩)
        · simp at same
        · exact waits.mpr ⟨before, incomplete, survives⟩
  | release consumer released =>
      simpa [TicketTable.perform, History.Completes, History.Fails] using
        reflects.consistent.mem_outstandingOf_release
  | detach consumer =>
      simpa [TicketTable.perform, History.Completes, History.Fails] using
        reflects.consistent.mem_outstandingOf_detach

theorem mem_outstandingOf_replay {run : RunId} :
    id ∈ (replay run history).outstandingOf query ↔
      history.WaitsSince
        (fun moment query id => id ∈ (replay run moment).outstandingOf query) query id := by
  induction history with
  | nil => simp [replay, outstandingOf, History.WaitsSince]
  | cons operation earlier ih =>
      rw [History.waitsSince_cons, ← ih, replay]
      exact (reflects_replay run earlier).mem_outstandingOf_perform

theorem Consistent.announced_deliveries
    (consistent : table.Consistent) (event : QueryId → QueryEvent) :
    Announced (fun query consumer => id ∈ table.outstandingOf query ∧
      query ∈ table.trackedBy consumer) event
      (table.deliveries id event) := by
  refine ⟨(table.waiting id).flatMap fun query =>
    (table.trackers query).map fun consumer => (query, consumer), ?_, ?_, ?_⟩
  · have queriesAscend :
        (table.waiting id).Pairwise fun left right => left.number < right.number :=
      Sorting.pairwise_lt_sortOn (consistent.unrepeated id) (by rintro ⟨_⟩ ⟨_⟩ rfl; rfl)
    have consumersAscend (query : QueryId) :
        (table.trackers query).Pairwise fun left right => left.number < right.number := by
      refine Sorting.pairwise_lt_sortOn ?_ (by rintro ⟨_⟩ ⟨_⟩ rfl; rfl)
      exact consistent.distinct.sublist (List.filter_sublist.map Prod.fst)
    rw [List.pairwise_flatMap]
    constructor
    · intro query _
      rw [List.pairwise_map]
      exact (consumersAscend query).imp fun ascends => .inr ⟨rfl, ascends⟩
    · refine queriesAscend.imp ?_
      intro left right ascends first inFirst second inSecond
      obtain ⟨_, _, rfl⟩ := List.mem_map.mp inFirst
      obtain ⟨_, _, rfl⟩ := List.mem_map.mp inSecond
      exact .inl ascends
  · intro query consumer
    simp [mem_waiting_iff, consistent.related, mem_trackers_iff consistent.distinct]
  · simp only [deliveries, List.map_flatMap, List.map_map]
    rfl

/-- The table after any history keeps the tickets and waits for what the history says, and
it answers the next reply as the history demands. -/
theorem replay_faithful (run : RunId) (history : History) :
    (∀ id, (replay run history).standingOf id = history.standing id) ∧
    (∀ query id, id ∈ (replay run history).outstandingOf query ↔
      history.WaitsSince
        (fun moment query id => id ∈ (replay run moment).outstandingOf query) query id) ∧
    ∀ reply, Answered (replay run history) history reply
      ((replay run history).reply reply).1 (replay run (.reply reply :: history)) := by
  have reflects := reflects_replay run history
  refine ⟨reflects.standing, fun query id => mem_outstandingOf_replay, fun reply => ?_⟩
  have announced : ∀ event, Announced (fun query consumer => reply.ticket ∈
      (replay run history).outstandingOf query ∧ history.Tracks consumer query) event
      ((replay run history).deliveries reply.ticket event) := by
    simpa only [reflects.tracks] using reflects.consistent.announced_deliveries
  have advanced : replay run (.reply reply :: history) =
      ((replay run history).reply reply).2 := rfl
  rw [advanced]
  unfold Answered
  cases verdict : history.verdict reply with
  | ignored => simp [reply_ignored (reflects.verdict.trans verdict)]
  | accepted =>
      obtain ⟨_, outputs, report, same, _, _, _, answer⟩ :=
        reply_accepted (reflects.verdict.trans verdict)
      rw [answer]
      cases reply with
      | finished ticket outputs report =>
          obtain ⟨_, rfl, rfl⟩ := Reply.finished.inj same
          exact announced _
      | failed failure => simp at same
  | fails failure =>
      rw [reply_fails (reflects.verdict.trans verdict)]
      refine ⟨announced _, fun query => ?_, fun query waitsNot => ?_⟩
      · exact mem_failed_afterFailure reflects.consistent.toIndexed
      · rw [outstandingOf_afterFailure reflects.consistent.toIndexed, if_neg waitsNot]

end Replay

end TicketFlow.TicketTable
