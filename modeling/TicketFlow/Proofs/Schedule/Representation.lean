import TicketFlow.Proofs.Schedule.History

namespace TicketFlow.TicketTable

/-! What the lists of a ticket table stand for.

The table is made of lists that are read as finite maps and sets: no key and no
element occurs twice.  The two indexes of who waits for what say the same, and
what they say fits the cached tickets, the stored results and the consumers.
-/

/-- No key and no element occurs twice. -/
structure Unrepeated (table : TicketTable) : Prop where
  cache : table.cache.Distinct
  results : table.results.Distinct
  outstanding : table.outstanding.Distinct
  dependents : table.dependents.Distinct
  tracking : table.tracking.Distinct
  waits : ∀ query, (table.outstandingOf query).Nodup
  awaited : ∀ ticket, (table.dependentsOf ticket).Nodup
  tracks : ∀ consumer, (table.trackedBy consumer).Nodup
  failed : table.failed.Nodup

variable {table : TicketTable} {query other : QueryId} {ticket : TicketId}
  {consumer : ConsumerId} {queries : List QueryId} {tickets : List TicketId}
  {outputs : List Compound}

theorem unrepeated_empty (run : RunId) : Unrepeated { run } where
  cache := List.nodup_nil
  results := List.nodup_nil
  outstanding := List.nodup_nil
  dependents := List.nodup_nil
  tracking := List.nodup_nil
  waits _ := List.nodup_nil
  awaited _ := List.nodup_nil
  tracks _ := List.nodup_nil
  failed := List.nodup_nil

section Request

theorem Unrepeated.track (unrepeated : table.Unrepeated) :
    (table.track consumer query).Unrepeated :=
  { unrepeated with
    tracking := unrepeated.tracking.insert
    tracks := fun someone => by
      simp only [trackedBy, TicketTable.track, OrderedMap.get?_insert]
      split
      · exact (unrepeated.tracks consumer).insert
      · exact unrepeated.tracks someone }

theorem Unrepeated.addDependency (unrepeated : table.Unrepeated) :
    (table.addDependency query ticket).Unrepeated :=
  { unrepeated with
    outstanding := unrepeated.outstanding.insert
    dependents := unrepeated.dependents.insert
    waits := fun other => by
      simp only [outstandingOf, TicketTable.addDependency, OrderedMap.get?_insert]
      split
      · exact (unrepeated.waits query).insert
      · exact unrepeated.waits other
    awaited := fun another => by
      rw [dependentsOf_addDependency]
      split
      · exact (unrepeated.awaited ticket).insert
      · exact unrepeated.awaited another }

theorem Unrepeated.request (unrepeated : table.Unrepeated)
    (consumer : ConsumerId) (query : QueryId) (asked : Ticket) :
    (table.request consumer query asked).2.Unrepeated := by
  rcases table.request_cases consumer query asked with
    ⟨_, _, _, _, same⟩ | ⟨_, _, _, same⟩ | ⟨_, same⟩ <;> rw [same]
  · exact unrepeated.track
  · exact unrepeated.track.addDependency
  · exact Unrepeated.addDependency { unrepeated.track with cache := unrepeated.cache.insert }

end Request

section Forget

theorem distinct_foldl_removeDependent
    {dependents : OrderedMap TicketId (List QueryId)} (distinct : dependents.Distinct) :
    (tickets.foldl (removeDependent query) dependents).Distinct := by
  induction tickets generalizing dependents with
  | nil => exact distinct
  | cons first rest ih =>
      refine ih ?_
      unfold removeDependent
      split
      · exact distinct
      · split
        · exact distinct.erase
        · exact distinct.insert

theorem Unrepeated.forget (unrepeated : table.Unrepeated) :
    (table.forget query).Unrepeated :=
  { unrepeated with
    outstanding := unrepeated.outstanding.erase
    dependents := distinct_foldl_removeDependent unrepeated.dependents
    waits := fun other => by
      rw [outstandingOf_forget]
      split
      · exact List.nodup_nil
      · exact unrepeated.waits other
    awaited := fun another =>
      (unrepeated.awaited another).sublist foldl_removeDependent_sublist }

theorem Unrepeated.dropUntracked (unrepeated : table.Unrepeated) (query : QueryId) :
    (table.dropUntracked query).Unrepeated := by
  unfold TicketTable.dropUntracked
  split
  · exact unrepeated
  · exact { unrepeated.forget with failed := unrepeated.failed.filter _ }

theorem Unrepeated.foldl {f : TicketTable → QueryId → TicketTable}
    (kept : ∀ {table query}, Unrepeated table → (f table query).Unrepeated)
    (unrepeated : table.Unrepeated) : (queries.foldl f table).Unrepeated := by
  induction queries generalizing table with
  | nil => exact unrepeated
  | cons first rest ih => exact ih (kept unrepeated)

theorem Unrepeated.release (unrepeated : table.Unrepeated) (consumer : ConsumerId)
    (query : QueryId) : (table.release consumer query).Unrepeated := by
  have untracked : (table.untrack consumer query).Unrepeated := by
    refine
      { unrepeated with tracking := unrepeated.tracking.modify, tracks := fun someone => ?_ }
    have kept := unrepeated.tracks someone
    simp only [trackedBy, untrack, OrderedMap.get?_modify] at kept ⊢
    split
    · cases tracked : table.tracking.get? someone with
      | none => exact List.nodup_nil
      | some queries => exact (tracked ▸ kept).filter _
    · exact kept
  exact untracked.dropUntracked query

theorem Unrepeated.detach (unrepeated : table.Unrepeated) (consumer : ConsumerId) :
    (table.detach consumer).Unrepeated := by
  have untracked : (table.untrackAll consumer).Unrepeated := by
    refine
      { unrepeated with tracking := unrepeated.tracking.erase, tracks := fun someone => ?_ }
    simp only [trackedBy, untrackAll, OrderedMap.get?_erase]
    split
    · exact List.nodup_nil
    · exact unrepeated.tracks someone
  exact untracked.foldl fun kept => kept.dropUntracked _

end Forget

section Reply

theorem Unrepeated.afterFailure (unrepeated : table.Unrepeated) :
    (table.afterFailure ticket).Unrepeated := by
  have evicted : (table.evict ticket).Unrepeated :=
    { unrepeated with
      cache := unrepeated.cache.erase
      results := unrepeated.results.erase
      dependents := unrepeated.dependents.erase
      awaited := fun another => by
        rw [dependentsOf_evict]
        split
        · exact List.nodup_nil
        · exact unrepeated.awaited another }
  exact evicted.foldl fun kept => { kept.forget with failed := kept.failed.insert }

theorem distinct_foldl_clearOne {outstanding : OrderedMap QueryId (List TicketId)}
    (distinct : outstanding.Distinct) :
    (queries.foldl (clearOne ticket) outstanding).Distinct := by
  induction queries generalizing outstanding with
  | nil => exact distinct
  | cons first rest ih => exact ih distinct.modify

theorem Unrepeated.afterCompletion (unrepeated : table.Unrepeated) :
    (table.afterCompletion ticket outputs).Unrepeated :=
  { unrepeated with
    results := unrepeated.results.insert
    outstanding := distinct_foldl_clearOne unrepeated.outstanding
    dependents := unrepeated.dependents.erase
    waits := fun query => by
      have cleared : (table.afterCompletion ticket outputs).outstandingOf query =
          if query ∈ table.waiting ticket then
            (table.outstandingOf query).filter fun other => other != ticket
          else table.outstandingOf query := getD_foldl_clearOne
      rw [cleared]
      split
      · exact (unrepeated.waits query).filter _
      · exact unrepeated.waits query
    awaited := fun another => by
      rw [dependentsOf_afterCompletion]
      split
      · exact List.nodup_nil
      · exact unrepeated.awaited another }

theorem Unrepeated.reply (unrepeated : table.Unrepeated) (reply : Reply) :
    (table.reply reply).2.Unrepeated := by
  cases verdict : (table.standingOf reply.ticket).verdict reply with
  | ignored => rw [reply_ignored verdict]; exact unrepeated
  | accepted =>
      obtain ⟨_, _, _, _, _, _, _, answer⟩ := reply_accepted verdict
      rw [answer]
      exact unrepeated.afterCompletion
  | fails failure => rw [reply_fails verdict]; exact unrepeated.afterFailure

end Reply

/-- Every operation leaves maps and sets behind. -/
theorem Unrepeated.perform (unrepeated : table.Unrepeated) (operation : Operation) :
    (table.perform operation).2.Unrepeated := by
  cases operation with
  | request consumer query ticket => exact unrepeated.request consumer query ticket
  | reply reply => exact unrepeated.reply reply
  | release consumer query => exact unrepeated.release consumer query
  | detach consumer => exact unrepeated.detach consumer

theorem unrepeated_replay (run : RunId) (history : History) :
    (replay run history).Unrepeated := by
  induction history with
  | nil => exact unrepeated_empty run
  | cons operation earlier ih => exact ih.perform operation

/-- After any history the indexes of the table agree: a query waits for a ticket iff the
ticket is waited for by the query.  Tickets that are waited for are cached and unfinished,
results are as many as their cached ticket has outputs, tickets are cached under their own
addresses, and only queries with a consumer wait or have failed. -/
theorem replay_represents (run : RunId) (history : History) :
    let table := replay run history
    table.Unrepeated ∧
      (∀ query id, id ∈ table.outstandingOf query ↔ query ∈ table.dependentsOf id) ∧
      (∀ id queries, table.dependents.get? id = some queries → queries ≠ []) ∧
      (∀ id, table.dependentsOf id ≠ [] →
        (∃ cached, table.cache.get? id = some cached) ∧ table.results.get? id = none) ∧
      (∀ id outputs, table.results.get? id = some outputs →
        ∃ cached, table.cache.get? id = some cached ∧ outputs.length = cached.arity) ∧
      (∀ id cached, table.cache.get? id = some cached → cached.id = id) ∧
      ∀ query, table.outstandingOf query ≠ [] ∨ query ∈ table.failed →
        ∃ consumer, query ∈ table.trackedBy consumer := by
  have consistent := (reflects_replay run history).consistent
  refine ⟨unrepeated_replay run history, fun query id => consistent.related, ?_, ?_,
    fun id outputs => consistent.stored, fun id cached => consistent.addressed, ?_⟩
  · rintro id queries found rfl
    exact consistent.inhabited id found
  · intro id awaited
    obtain ⟨query, waits⟩ := List.exists_mem_of_ne_nil _ awaited
    exact consistent.awaited (consistent.related.mpr waits)
  · intro query concerned
    rw [← isTracked_iff consistent.distinct]
    rcases concerned with waits | failed
    · obtain ⟨id, waits⟩ := List.exists_mem_of_ne_nil _ waits
      exact consistent.tracked waits
    · exact consistent.failedTracked failed

end TicketFlow.TicketTable
