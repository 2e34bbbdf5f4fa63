import Mathlib.Data.List.Nodup
import TicketFlow.Proofs.Schedule.Table

namespace TicketFlow.TicketTable

/-! The bookkeeping of the ticket table agrees with itself after every operation.

What queries wait for and who waits for each ticket are two indexes of one
relation; only tickets that are cached and not finished are waited for; results
are kept under cached tickets with as many outputs as those have.  What a query
leaves in the table it leaves only while a consumer tracks it.
-/

/-- Everything that can be done to a table. -/
inductive Operation where
  | request (consumer : ConsumerId) (query : QueryId) (ticket : Ticket)
  | reply (reply : Reply)
  | release (consumer : ConsumerId) (query : QueryId)
  | detach (consumer : ConsumerId)

def perform (table : TicketTable) : Operation → Deliveries × TicketTable
  | .request consumer query ticket => ([], (table.request consumer query ticket).2)
  | .reply reply => table.reply reply
  | .release consumer query => ([], table.release consumer query)
  | .detach consumer => ([], table.detach consumer)

/-- The tickets, their results and who waits for them fit together. -/
structure Indexed (table : TicketTable) : Prop where
  related :
    ∀ {query ticket}, ticket ∈ table.outstandingOf query ↔ query ∈ table.dependentsOf ticket
  inhabited : ∀ ticket, table.dependents.get? ticket ≠ some []
  unrepeated : ∀ ticket, (table.dependentsOf ticket).Nodup
  awaited : ∀ {query ticket}, ticket ∈ table.outstandingOf query →
    (∃ cached, table.cache.get? ticket = some cached) ∧ table.results.get? ticket = none
  stored : ∀ {ticket outputs}, table.results.get? ticket = some outputs →
    ∃ cached, table.cache.get? ticket = some cached ∧ outputs.length = cached.arity
  addressed :
    ∀ {ticket cached}, table.cache.get? ticket = some cached → cached.id = ticket

/-- A table in which nothing is left of queries that no consumer tracks. -/
structure Consistent (table : TicketTable) : Prop extends Indexed table where
  distinct : table.tracking.Distinct
  tracked :
    ∀ {query ticket}, ticket ∈ table.outstandingOf query → table.isTracked query = true
  failedTracked : ∀ {query}, query ∈ table.failed → table.isTracked query = true

variable {table : TicketTable} {query other : QueryId} {ticket another : TicketId}
  {consumer : ConsumerId} {outputs : List Compound} {report : List ReportEntry}
  {failure : Failure}

theorem consistent_empty (run : RunId) : Consistent { run } where
  related := by simp [outstandingOf, dependentsOf]
  inhabited := by simp
  unrepeated := by simp [dependentsOf]
  awaited := by simp [outstandingOf]
  stored := by simp
  addressed := by simp
  distinct := List.nodup_nil
  tracked := by simp [outstandingOf]
  failedTracked := by simp

section Request

theorem isTracked_track (distinct : table.tracking.Distinct) :
    (table.track consumer query).isTracked other = true ↔
      other = query ∨ table.isTracked other = true := by
  have later : (table.track consumer query).tracking.Distinct := distinct.insert
  rw [isTracked_iff distinct, isTracked_iff later]
  simp only [mem_trackedBy_track]
  constructor
  · rintro ⟨someone, (⟨_, same⟩ | found)⟩
    · exact .inl same
    · exact .inr ⟨someone, found⟩
  · rintro (same | ⟨someone, found⟩)
    · exact ⟨consumer, .inl ⟨rfl, same⟩⟩
    · exact ⟨someone, .inr found⟩

theorem Consistent.track (consistent : table.Consistent) :
    (table.track consumer query).Consistent where
  toIndexed := { consistent.toIndexed with }
  distinct := consistent.distinct.insert
  tracked
    waits := (isTracked_track consistent.distinct).mpr (.inr (consistent.tracked waits))
  failedTracked failed := (isTracked_track consistent.distinct).mpr
    (.inr (consistent.failedTracked failed))

theorem Indexed.addDependency (indexed : table.Indexed)
    (cached : ∃ cached, table.cache.get? ticket = some cached)
    (unfinished : table.results.get? ticket = none) :
    (table.addDependency query ticket).Indexed where
  related := by
    intro other another
    rw [mem_outstandingOf_addDependency, mem_dependentsOf_addDependency,
      indexed.related, and_comm]
  inhabited another := by
    by_cases same : ticket = another
    · subst same
      have nonempty : (table.dependentsOf ticket).insert query ≠ [] :=
        List.ne_nil_of_mem (List.mem_insert_iff.mpr (.inl rfl))
      simpa [TicketTable.addDependency] using nonempty
    · simpa [TicketTable.addDependency, OrderedMap.get?_insert,
        same] using indexed.inhabited another
  unrepeated another := by
    rw [dependentsOf_addDependency]
    split
    · exact (indexed.unrepeated ticket).insert
    · exact indexed.unrepeated another
  awaited := by
    intro other another waits
    rcases mem_outstandingOf_addDependency.mp waits with ⟨_, rfl⟩ | waits
    · exact ⟨cached, unfinished⟩
    · exact indexed.awaited waits
  stored := indexed.stored
  addressed := indexed.addressed

theorem Consistent.addDependency (consistent : table.Consistent)
    (cached : ∃ cached, table.cache.get? ticket = some cached)
    (unfinished : table.results.get? ticket = none)
    (tracked : table.isTracked query = true) :
    (table.addDependency query ticket).Consistent where
  toIndexed := consistent.toIndexed.addDependency cached unfinished
  distinct := consistent.distinct
  tracked waits := by
    rcases mem_outstandingOf_addDependency.mp waits with ⟨same, _⟩ | waits
    · exact same ▸ tracked
    · exact consistent.tracked waits
  failedTracked := consistent.failedTracked

/-- An unknown ticket has no results, and nobody waits for it. -/
theorem Indexed.insertCache {cached : Ticket} (indexed : table.Indexed)
    (unknown : table.cache.get? cached.id = none) :
    ({ table with cache := table.cache.insert cached.id cached } : TicketTable).Indexed where
  related := indexed.related
  inhabited := indexed.inhabited
  unrepeated := indexed.unrepeated
  awaited := by
    intro query ticket waits
    obtain ⟨⟨found, lookup⟩, unfinished⟩ := indexed.awaited waits
    have apart : cached.id ≠ ticket := by
      rintro rfl
      simp [unknown] at lookup
    exact ⟨⟨found, by simpa [OrderedMap.get?_insert, apart] using lookup⟩, unfinished⟩
  stored := by
    intro ticket outputs result
    obtain ⟨found, lookup, arity⟩ := indexed.stored result
    have apart : cached.id ≠ ticket := by
      rintro rfl
      simp [unknown] at lookup
    exact ⟨found, by simpa [OrderedMap.get?_insert, apart] using lookup, arity⟩
  addressed := by
    intro ticket found lookup
    rw [OrderedMap.get?_insert] at lookup
    split at lookup
    next same => simp only [Option.some.injEq] at lookup; rw [← lookup, same]
    next => exact indexed.addressed lookup

/-- What a request changes: a new ticket is cached, and an unfinished one is waited for. -/
theorem request_cases (table : TicketTable)
    (consumer : ConsumerId) (query : QueryId) (ticket : Ticket) :
    (∃ cached outputs, table.cache.get? ticket.id = some cached ∧
      table.results.get? ticket.id = some outputs ∧
      table.request consumer query ticket = (⟨cached, false⟩, table.track consumer query)) ∨
      (∃ cached, table.cache.get? ticket.id = some cached ∧
        table.results.get? ticket.id = none ∧ table.request consumer query ticket =
          (⟨cached, false⟩, (table.track consumer query).addDependency query ticket.id)) ∨
      (table.cache.get? ticket.id = none ∧
        table.request consumer query ticket =
          (⟨ticket, true⟩, { table.track consumer query with
            cache := table.cache.insert ticket.id ticket }.addDependency query
                ticket.id)) := by
  have sameCache : (table.track consumer query).cache = table.cache := rfl
  have sameResults : (table.track consumer query).results = table.results := rfl
  simp only [request, sameCache, sameResults, OrderedMap.contains]
  cases lookup : table.cache.get? ticket.id with
  | none => simp
  | some cached => cases result : table.results.get? ticket.id <;> simp

theorem Consistent.request (consistent : table.Consistent)
    (consumer : ConsumerId) (query : QueryId) (ticket : Ticket) :
    (table.request consumer query ticket).2.Consistent := by
  have tracked : (table.track consumer query).isTracked query = true :=
    (isTracked_track consistent.distinct).mpr (.inl rfl)
  rcases table.request_cases consumer query ticket with
    ⟨cached, outputs, _, _, same⟩ | ⟨cached, lookup, unfinished, same⟩ |
      ⟨unknown, same⟩ <;> rw [same]
  · exact consistent.track
  · exact consistent.track.addDependency ⟨cached, lookup⟩ unfinished tracked
  · have unfinished : table.results.get? ticket.id = none := by
      cases result : table.results.get? ticket.id with
      | none => rfl
      | some outputs =>
          obtain ⟨found, lookup, _⟩ := consistent.stored result
          simp [unknown] at lookup
    have cached : TicketTable.Consistent { table.track consumer query with
        cache := table.cache.insert ticket.id ticket } :=
      { toIndexed := consistent.track.toIndexed.insertCache unknown
        distinct := consistent.track.distinct
        tracked := consistent.track.tracked
        failedTracked := consistent.track.failedTracked }
    exact cached.addDependency ⟨ticket, OrderedMap.get?_insert_self⟩ unfinished tracked

end Request

section Reply

/-- The table without the ticket, before the queries that wait for it are failed. -/
def evict (table : TicketTable) (ticket : TicketId) : TicketTable :=
  { table with
    cache := table.cache.erase ticket
    results := table.results.erase ticket
    dependents := table.dependents.erase ticket }

/-- The table after a failure of the ticket. -/
def afterFailure (table : TicketTable) (ticket : TicketId) : TicketTable :=
  (table.waiting ticket).foldl failQuery (table.evict ticket)

/-- The table after the outputs of the ticket have arrived. -/
def afterCompletion (table : TicketTable) (ticket : TicketId)
    (outputs : List Compound) : TicketTable :=
  { table with
    results := table.results.insert ticket outputs
    outstanding := (table.waiting ticket).foldl (clearOne ticket) table.outstanding
    dependents := table.dependents.erase ticket }

theorem fail_known {cached : Ticket}
    (known : table.cache.get? failure.ticket = some cached) : table.fail failure =
      (table.deliveries failure.ticket fun query => .queryFailed query failure,
        table.afterFailure failure.ticket) := by
  simp [fail, OrderedMap.contains, known, afterFailure, evict]

theorem fail_unknown (unknown : table.cache.get? failure.ticket = none) :
    table.fail failure = ([], table) := by
  simp [fail, OrderedMap.contains, unknown]

theorem finish_unknown (unknown : table.cache.get? ticket = none) :
    table.finish ticket outputs report = ([], table) := by
  simp [finish, unknown]

theorem finish_repeated {before : List Compound}
    (repeated : table.results.get? ticket = some before) :
    table.finish ticket outputs report = ([], table) := by
  unfold finish
  split
  · rfl
  · simp [OrderedMap.contains, repeated]

theorem finish_accepted {cached : Ticket} (known : table.cache.get? ticket = some cached)
    (unfinished : table.results.get? ticket = none)
    (counted : outputs.length = cached.arity) : table.finish ticket outputs report =
      (table.deliveries ticket fun query => .ticketFinished query ticket report,
        table.afterCompletion ticket outputs) := by
  simp [finish, known, OrderedMap.contains, unfinished, counted, afterCompletion]

theorem finish_miscounted {cached : Ticket}
    (known : table.cache.get? ticket = some cached)
    (unfinished : table.results.get? ticket = none)
    (counted : outputs.length ≠ cached.arity) : table.finish ticket outputs report =
      (table.deliveries ticket fun query => .queryFailed query
        (wrongCount ticket cached outputs.length), table.afterFailure ticket) := by
  simp only [finish, known, OrderedMap.contains, unfinished, Option.isSome_none,
    Bool.false_eq_true, if_false, counted]
  have sameTicket : table.cache.get? (wrongCount ticket cached outputs.length).ticket =
      some cached := known
  exact fail_known sameTicket

theorem mem_waiting_iff :
    query ∈ table.waiting ticket ↔ query ∈ table.dependentsOf ticket :=
  Sorting.mem_sortOn

theorem afterFailure_frame :
    (table.afterFailure ticket).cache = table.cache.erase ticket ∧
      (table.afterFailure ticket).results = table.results.erase ticket ∧
      (table.afterFailure ticket).tracking = table.tracking :=
  foldl_failQuery_frame

theorem outstandingOf_afterFailure (indexed : table.Indexed) :
    (table.afterFailure ticket).outstandingOf query =
      if ticket ∈ table.outstandingOf query then [] else table.outstandingOf query := by
  rw [afterFailure, outstandingOf_foldl_failQuery]
  simp only [mem_waiting_iff, ← indexed.related]
  rfl

theorem mem_failed_afterFailure (indexed : table.Indexed) :
    query ∈ (table.afterFailure ticket).failed ↔
      ticket ∈ table.outstandingOf query ∨ query ∈ table.failed := by
  rw [afterFailure, mem_failed_foldl_failQuery, mem_waiting_iff, indexed.related]
  rfl

theorem dependentsOf_evict :
    (table.evict ticket).dependentsOf another = if ticket = another then
      [] else table.dependentsOf another := by
  simp only [dependentsOf, evict, OrderedMap.get?_erase]
  by_cases same : ticket = another <;> simp [same]

theorem Indexed.afterFailure (indexed : table.Indexed) :
    (table.afterFailure ticket).Indexed where
  related := by
    intro query another
    rw [outstandingOf_afterFailure indexed, TicketTable.afterFailure,
      mem_dependentsOf_foldl_failQuery, mem_waiting_iff, dependentsOf_evict,
      ← indexed.related]
    by_cases fails : ticket ∈ table.outstandingOf query
    · by_cases same : ticket = another
      · simp [same]
      · simp only [fails, if_true, same, if_false, ← indexed.related, true_and]
        exact iff_of_false List.not_mem_nil fun both => both.2 both.1
    · by_cases same : ticket = another
      · simp [← same]
      · simp [fails, same, indexed.related]
  inhabited another :=
    foldl_failQuery_dependents_ne_nil fun other => by
      by_cases same : ticket = other
      · simp [TicketTable.evict, same]
      · simpa [TicketTable.evict, OrderedMap.get?_erase,
          same] using indexed.inhabited other
  unrepeated another := by
    refine List.Nodup.sublist foldl_failQuery_dependents_sublist ?_
    rw [dependentsOf_evict]
    split
    · exact List.nodup_nil
    · exact indexed.unrepeated another
  awaited := by
    intro query another waits
    rw [outstandingOf_afterFailure indexed] at waits
    split at waits
    · simp at waits
    next survives =>
      have apart : ticket ≠ another := by
        rintro rfl
        exact survives waits
      rw [afterFailure_frame.1, afterFailure_frame.2.1, OrderedMap.get?_erase_of_ne apart,
        OrderedMap.get?_erase_of_ne apart]
      exact indexed.awaited waits
  stored := by
    intro another outputs result
    rw [afterFailure_frame.2.1, OrderedMap.get?_erase] at result
    rw [afterFailure_frame.1, OrderedMap.get?_erase]
    split at result
    · simp at result
    next apart => simpa [apart] using indexed.stored result
  addressed := by
    intro another cached lookup
    rw [afterFailure_frame.1, OrderedMap.get?_erase] at lookup
    split at lookup
    · simp at lookup
    · exact indexed.addressed lookup

theorem isTracked_congr {first second : TicketTable}
    (same : first.tracking = second.tracking) :
    first.isTracked query = second.isTracked query := by
  rw [isTracked, same, ← isTracked]

theorem Consistent.afterFailure (consistent : table.Consistent) :
    (table.afterFailure ticket).Consistent where
  toIndexed := consistent.toIndexed.afterFailure
  distinct := afterFailure_frame.2.2.symm ▸ consistent.distinct
  tracked waits := by
    rw [outstandingOf_afterFailure consistent.toIndexed] at waits
    rw [isTracked_congr afterFailure_frame.2.2]
    split at waits
    · simp at waits
    · exact consistent.tracked waits
  failedTracked failed := by
    rw [isTracked_congr afterFailure_frame.2.2]
    rcases (mem_failed_afterFailure consistent.toIndexed).mp failed with waits | failed
    · exact consistent.tracked waits
    · exact consistent.failedTracked failed

theorem mem_outstandingOf_afterCompletion (indexed : table.Indexed) :
    another ∈ (table.afterCompletion ticket outputs).outstandingOf query ↔
      another ∈ table.outstandingOf query ∧ another ≠ ticket := by
  have cleared : (table.afterCompletion ticket outputs).outstandingOf query =
      if query ∈ table.waiting ticket then
        (table.outstandingOf query).filter fun other => other != ticket
      else table.outstandingOf query := getD_foldl_clearOne
  rw [cleared]
  by_cases waits : ticket ∈ table.outstandingOf query
  · simp [mem_waiting_iff, ← indexed.related, waits]
  · have apart : another ∈ table.outstandingOf query → another ≠ ticket := by
      rintro member rfl
      exact waits member
    simpa [mem_waiting_iff, ← indexed.related, waits] using apart

theorem dependentsOf_afterCompletion :
    (table.afterCompletion ticket outputs).dependentsOf another =
      if ticket = another then [] else table.dependentsOf another := by
  simp only [dependentsOf, afterCompletion, OrderedMap.get?_erase]
  by_cases same : ticket = another <;> simp [same]

theorem Indexed.afterCompletion {cached : Ticket} (indexed : table.Indexed)
    (known : table.cache.get? ticket = some cached)
    (counted : outputs.length = cached.arity) :
    (table.afterCompletion ticket outputs).Indexed where
  related := by
    intro query another
    rw [mem_outstandingOf_afterCompletion indexed, dependentsOf_afterCompletion]
    by_cases same : ticket = another
    · simp [same]
    · simp [same, Ne.symm same, indexed.related]
  inhabited another := by
    by_cases same : ticket = another
    · simp [TicketTable.afterCompletion, same]
    · simpa [TicketTable.afterCompletion, OrderedMap.get?_erase,
        same] using indexed.inhabited another
  unrepeated another := by
    rw [dependentsOf_afterCompletion]
    split
    · exact List.nodup_nil
    · exact indexed.unrepeated another
  awaited := by
    intro query another waits
    obtain ⟨waits, apart⟩ := (mem_outstandingOf_afterCompletion indexed).mp waits
    obtain ⟨lookup, unfinished⟩ := indexed.awaited waits
    have fresh := Ne.symm apart
    exact ⟨lookup, by
      simpa [TicketTable.afterCompletion, OrderedMap.get?_insert, fresh] using unfinished⟩
  stored := by
    intro another stored result
    simp only [TicketTable.afterCompletion, OrderedMap.get?_insert] at result
    split at result
    next same =>
      simp only [Option.some.injEq] at result
      exact ⟨cached, same ▸ known, result ▸ counted⟩
    next => exact indexed.stored result
  addressed := indexed.addressed

theorem Consistent.afterCompletion {cached : Ticket}
    (consistent : table.Consistent) (known : table.cache.get? ticket = some cached)
    (counted : outputs.length = cached.arity) :
    (table.afterCompletion ticket outputs).Consistent where
  toIndexed := consistent.toIndexed.afterCompletion known counted
  distinct := consistent.distinct
  tracked waits := consistent.tracked
    ((mem_outstandingOf_afterCompletion consistent.toIndexed).mp waits).1
  failedTracked := consistent.failedTracked

theorem Consistent.fail (consistent : table.Consistent) (failure : Failure) :
    (table.fail failure).2.Consistent := by
  cases known : table.cache.get? failure.ticket with
  | none => rw [fail_unknown known]; exact consistent
  | some cached => rw [fail_known known]; exact consistent.afterFailure

theorem Consistent.finish (consistent : table.Consistent) (ticket : TicketId)
    (outputs : List Compound) (report : List ReportEntry) :
    (table.finish ticket outputs report).2.Consistent := by
  cases known : table.cache.get? ticket with
  | none => rw [finish_unknown known]; exact consistent
  | some cached =>
      cases stored : table.results.get? ticket with
      | some before => rw [finish_repeated stored]; exact consistent
      | none =>
          by_cases counted : outputs.length = cached.arity
          · rw [finish_accepted known stored counted]
            exact consistent.afterCompletion known counted
          · rw [finish_miscounted known stored counted]
            exact consistent.afterFailure

end Reply

section Untracked

variable {queries : List QueryId}

theorem outstandingOf_dropUntracked :
    (table.dropUntracked query).outstandingOf other =
      if other = query ∧ table.isTracked query = false then
        [] else table.outstandingOf other := by
  unfold dropUntracked
  split
  next tracked => simp [tracked]
  next untracked =>
    have forgotten : (table.forget query).outstandingOf other =
        if query = other then [] else table.outstandingOf other := outstandingOf_forget
    simp only [Bool.not_eq_true] at untracked
    simp only [untracked, and_true, @eq_comm _ other query]
    exact forgotten

theorem dropUntracked_frame :
    (table.dropUntracked query).cache = table.cache ∧
      (table.dropUntracked query).results = table.results ∧
      (table.dropUntracked query).tracking = table.tracking := by
  unfold dropUntracked
  split <;> exact ⟨rfl, rfl, rfl⟩

theorem mem_failed_dropUntracked :
    other ∈ (table.dropUntracked query).failed ↔
      other ∈ table.failed ∧ (other = query → table.isTracked query = true) := by
  unfold dropUntracked
  split
  next tracked => simp [tracked]
  next untracked => simp [untracked, forget]

theorem foldl_dropUntracked_frame :
    (queries.foldl dropUntracked table).cache = table.cache ∧
      (queries.foldl dropUntracked table).results = table.results ∧
      (queries.foldl dropUntracked table).tracking = table.tracking := by
  induction queries generalizing table with
  | nil => exact ⟨rfl, rfl, rfl⟩
  | cons first rest ih =>
      have later : (rest.foldl dropUntracked (table.dropUntracked first)).cache =
          (table.dropUntracked first).cache ∧
          (rest.foldl dropUntracked (table.dropUntracked first)).results =
            (table.dropUntracked first).results ∧
          (rest.foldl dropUntracked (table.dropUntracked first)).tracking =
            (table.dropUntracked first).tracking := ih
      obtain ⟨cache, results, tracking⟩ := later
      exact ⟨cache.trans dropUntracked_frame.1, results.trans dropUntracked_frame.2.1,
        tracking.trans dropUntracked_frame.2.2⟩

theorem outstandingOf_foldl_dropUntracked :
    (queries.foldl dropUntracked table).outstandingOf other =
      if other ∈ queries ∧ table.isTracked other = false then
        [] else table.outstandingOf other := by
  induction queries generalizing table with
  | nil => simp
  | cons first rest ih =>
      rw [List.foldl_cons, ih, outstandingOf_dropUntracked,
        isTracked_congr dropUntracked_frame.2.2]
      by_cases tracked : table.isTracked other = true
      · have kept : ¬(other = first ∧ table.isTracked first = false) := by
          rintro ⟨rfl, untracked⟩
          simp [tracked] at untracked
        simp [tracked, kept]
      · by_cases same : other = first
        · subst same
          simp [tracked]
        · simp [same]

theorem mem_failed_foldl_dropUntracked :
    other ∈ (queries.foldl dropUntracked table).failed ↔
      other ∈ table.failed ∧ (other ∈ queries → table.isTracked other = true) := by
  induction queries generalizing table with
  | nil => simp
  | cons first rest ih =>
      rw [List.foldl_cons, ih, mem_failed_dropUntracked,
        isTracked_congr dropUntracked_frame.2.2]
      by_cases same : other = first
      · subst same
        simp only [List.mem_cons, true_or, forall_const]
        grind
      · simp [same]

theorem Indexed.forget (indexed : table.Indexed) : (table.forget query).Indexed where
  related := by
    intro other another
    rw [outstandingOf_forget, mem_dependentsOf_forget, ← indexed.related]
    by_cases same : query = other
    · simp [same]
    · simp [same, Ne.symm same]
  inhabited another := get?_foldl_removeDependent_ne_nil indexed.inhabited
  unrepeated another := (indexed.unrepeated another).sublist foldl_removeDependent_sublist
  awaited := by
    intro other another waits
    rw [outstandingOf_forget] at waits
    split at waits
    · simp at waits
    · exact indexed.awaited waits
  stored := indexed.stored
  addressed := indexed.addressed

theorem Indexed.dropUntracked (indexed : table.Indexed) :
    (table.dropUntracked query).Indexed := by
  unfold TicketTable.dropUntracked
  split
  · exact indexed
  · exact { indexed.forget with }

theorem Indexed.foldl_dropUntracked (indexed : table.Indexed) :
    (queries.foldl TicketTable.dropUntracked table).Indexed := by
  induction queries generalizing table with
  | nil => exact indexed
  | cons first rest ih => exact ih indexed.dropUntracked

/-- Once everything that may have lost its last consumer is dropped,
nothing untracked is left. -/
theorem Indexed.consistent_foldl_dropUntracked
    (indexed : table.Indexed) (distinct : table.tracking.Distinct)
    (tracked : ∀ {query ticket}, ticket ∈ table.outstandingOf query →
      table.isTracked query = true ∨ query ∈ queries)
    (failedTracked : ∀ {query}, query ∈ table.failed →
      table.isTracked query = true ∨ query ∈ queries) :
    (queries.foldl TicketTable.dropUntracked table).Consistent where
  toIndexed := indexed.foldl_dropUntracked
  distinct := foldl_dropUntracked_frame.2.2.symm ▸ distinct
  tracked waits := by
    rw [isTracked_congr foldl_dropUntracked_frame.2.2]
    rw [outstandingOf_foldl_dropUntracked] at waits
    split at waits
    · simp at waits
    next kept =>
      rcases tracked waits with tracked | member
      · exact tracked
      · simpa [member] using kept
  failedTracked failed := by
    rw [isTracked_congr foldl_dropUntracked_frame.2.2]
    obtain ⟨failed, kept⟩ := mem_failed_foldl_dropUntracked.mp failed
    exact (failedTracked failed).elim id kept

theorem Consistent.release (consistent : table.Consistent) (consumer : ConsumerId)
    (query : QueryId) : (table.release consumer query).Consistent := by
  have distinct : (table.untrack consumer query).tracking.Distinct :=
    consistent.distinct.modify
  have kept : ∀ {other}, table.isTracked other = true →
      (table.untrack consumer query).isTracked other = true ∨ other ∈ [query] := by
    intro other tracked
    obtain ⟨someone, found⟩ := (isTracked_iff consistent.distinct).mp tracked
    by_cases same : other = query
    · exact .inr (by simp [same])
    · exact .inl ((isTracked_iff distinct).mpr
        ⟨someone, mem_trackedBy_untrack.mpr ⟨found, by simp [same]⟩⟩)
  have indexed : (table.untrack consumer query).Indexed := { consistent.toIndexed with }
  have consistent :
      ([query].foldl TicketTable.dropUntracked (table.untrack consumer query)).Consistent :=
    indexed.consistent_foldl_dropUntracked distinct
      (fun waits => kept (consistent.tracked waits))
      (fun failed => kept (consistent.failedTracked failed))
  exact consistent

theorem Consistent.detach (consistent : table.Consistent) (consumer : ConsumerId) :
    (table.detach consumer).Consistent := by
  have distinct : (table.untrackAll consumer).tracking.Distinct :=
    consistent.distinct.erase
  have kept : ∀ {other}, table.isTracked other = true →
      (table.untrackAll consumer).isTracked other = true ∨
        other ∈ table.trackedBy consumer := by
    intro other tracked
    obtain ⟨someone, found⟩ := (isTracked_iff consistent.distinct).mp tracked
    by_cases same : someone = consumer
    · exact .inr (same ▸ found)
    · exact .inl
        ((isTracked_iff distinct).mpr ⟨someone, mem_trackedBy_untrackAll.mpr ⟨found, same⟩⟩)
  have indexed : (table.untrackAll consumer).Indexed := { consistent.toIndexed with }
  exact indexed.consistent_foldl_dropUntracked distinct
    (fun waits => kept (consistent.tracked waits))
    (fun failed => kept (consistent.failedTracked failed))

end Untracked

/-- Every operation keeps the table consistent. -/
theorem Consistent.perform (consistent : table.Consistent) (operation : Operation) :
    (table.perform operation).2.Consistent := by
  cases operation with
  | request consumer query ticket => exact consistent.request consumer query ticket
  | reply reply =>
      cases reply with
      | finished ticket outputs report => exact consistent.finish ticket outputs report
      | failed failure => exact consistent.fail failure
  | release consumer query => exact consistent.release consumer query
  | detach consumer => exact consistent.detach consumer

end TicketFlow.TicketTable
