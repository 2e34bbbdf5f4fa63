import TicketFlow.Proofs.Data.OrderedMap
import TicketFlow.Schedule.Table

namespace TicketFlow.TicketTable

/-! What each operation of the ticket table does to its views.

A table is seen through the tickets a query waits for, the queries a ticket is
waited for by, the queries a consumer tracks, the cached tickets, the stored
results and the failed queries.  Every operation has one equation or
equivalence for each view that it changes.
-/

variable {table : TicketTable} {query other : QueryId} {ticket another : TicketId}
  {consumer someone : ConsumerId}

section Request

@[simp] theorem outstandingOf_track :
    (table.track consumer query).outstandingOf other = table.outstandingOf other := rfl

@[simp] theorem dependentsOf_track :
    (table.track consumer query).dependentsOf ticket = table.dependentsOf ticket := rfl

@[simp] theorem trackedBy_addDependency :
    (table.addDependency query ticket).trackedBy consumer = table.trackedBy consumer :=
  rfl

theorem mem_trackedBy_track :
    other ∈ (table.track consumer query).trackedBy someone ↔
      (someone = consumer ∧ other = query) ∨ other ∈ table.trackedBy someone := by
  simp only [trackedBy, track, OrderedMap.get?_insert]
  by_cases same : consumer = someone
  · subst same
    simp [List.mem_insert_iff]
  · simp [same, Ne.symm same]

theorem mem_outstandingOf_addDependency :
    another ∈ (table.addDependency query ticket).outstandingOf other ↔
      (other = query ∧ another = ticket) ∨ another ∈ table.outstandingOf other := by
  simp only [outstandingOf, addDependency, OrderedMap.get?_insert]
  by_cases same : query = other
  · subst same
    simp [List.mem_insert_iff]
  · simp [same, Ne.symm same]

theorem dependentsOf_addDependency :
    (table.addDependency query ticket).dependentsOf another =
      if ticket = another then (table.dependentsOf ticket).insert query
      else table.dependentsOf another := by
  simp only [dependentsOf, addDependency, OrderedMap.get?_insert]
  by_cases same : ticket = another <;> simp [same]

theorem mem_dependentsOf_addDependency :
    other ∈ (table.addDependency query ticket).dependentsOf another ↔
      (another = ticket ∧ other = query) ∨ other ∈ table.dependentsOf another := by
  rw [dependentsOf_addDependency]
  by_cases same : ticket = another
  · subst same
    simp [List.mem_insert_iff]
  · simp [same, Ne.symm same]

end Request

section Forget

variable {dependents : OrderedMap TicketId (List QueryId)} {tickets : List TicketId}

theorem getD_removeDependent :
    ((removeDependent query dependents ticket).get? another).getD [] =
      if ticket = another then
        ((dependents.get? another).getD []).filter fun other => other != query
      else (dependents.get? another).getD [] := by
  unfold removeDependent
  by_cases same : ticket = another
  · subst same
    split
    next absent => simp [absent]
    next queries found =>
      split
      next none_left => simp [found, none_left]
      next remaining _ => simp [found]
  · split
    · simp [same]
    · split
      · simp [OrderedMap.get?_erase, same]
      · simp [OrderedMap.get?_insert, same]

theorem get?_removeDependent_ne_nil
    (inhabited : ∀ other, dependents.get? other ≠ some []) :
    (removeDependent query dependents ticket).get? another ≠ some [] := by
  unfold removeDependent
  split
  · exact inhabited another
  · split
    next =>
        by_cases same : ticket = another <;> simp [OrderedMap.get?_erase, same, inhabited]
    next nonempty =>
      by_cases same : ticket = another
      · subst same
        simpa using nonempty
      · simp [OrderedMap.get?_insert, same, inhabited]

theorem getD_foldl_removeDependent :
    ((tickets.foldl (removeDependent query) dependents).get? another).getD [] =
      if another ∈ tickets then
        ((dependents.get? another).getD []).filter fun other => other != query
      else (dependents.get? another).getD [] := by
  induction tickets generalizing dependents with
  | nil => simp
  | cons first rest ih =>
      rw [List.foldl_cons, ih, getD_removeDependent]
      by_cases same : first = another
      · simp [same, List.filter_filter]
      · simp [same, Ne.symm same]

theorem mem_foldl_removeDependent :
    other ∈ ((tickets.foldl (removeDependent query) dependents).get? another).getD [] ↔
      other ∈ (dependents.get? another).getD [] ∧ ¬(other = query ∧ another ∈ tickets) := by
  rw [getD_foldl_removeDependent]
  by_cases member : another ∈ tickets <;> simp [member]

theorem foldl_removeDependent_sublist :
    (((tickets.foldl (removeDependent query) dependents).get? another).getD []).Sublist
      ((dependents.get? another).getD []) := by
  rw [getD_foldl_removeDependent]
  split
  · exact List.filter_sublist
  · exact .refl _

theorem get?_foldl_removeDependent_ne_nil
    (inhabited : ∀ other, dependents.get? other ≠ some []) :
    (tickets.foldl (removeDependent query) dependents).get? another ≠ some [] := by
  induction tickets generalizing dependents with
  | nil => exact inhabited another
  | cons first rest ih => exact ih fun other => get?_removeDependent_ne_nil inhabited

theorem outstandingOf_forget :
    (table.forget query).outstandingOf other = if query = other then
      [] else table.outstandingOf other := by
  simp only [outstandingOf, forget, OrderedMap.get?_erase]
  by_cases same : query = other <;> simp [same]

theorem mem_dependentsOf_forget :
    other ∈ (table.forget query).dependentsOf ticket ↔
      other ∈ table.dependentsOf ticket ∧
        ¬(other = query ∧ ticket ∈ table.outstandingOf query) :=
  mem_foldl_removeDependent

@[simp] theorem trackedBy_forget :
    (table.forget query).trackedBy consumer = table.trackedBy consumer := rfl

end Forget

section Fail

variable {queries : List QueryId}

/-- Failing several queries changes nothing but what they wait for and that they failed. -/
theorem foldl_failQuery_frame :
    (queries.foldl failQuery table).cache = table.cache ∧
      (queries.foldl failQuery table).results = table.results ∧
      (queries.foldl failQuery table).tracking = table.tracking := by
  induction queries generalizing table with
  | nil => exact ⟨rfl, rfl, rfl⟩
  | cons first rest ih => exact ih

theorem get?_outstanding_foldl_failQuery :
    (queries.foldl failQuery table).outstanding.get? other =
      if other ∈ queries then none else table.outstanding.get? other := by
  induction queries generalizing table with
  | nil => simp
  | cons first rest ih =>
      have forgotten : (table.failQuery first).outstanding.get? other =
          if first = other then none else table.outstanding.get? other :=
          OrderedMap.get?_erase
      rw [List.foldl_cons, ih, forgotten]
      by_cases later : other ∈ rest
      · simp [later]
      · by_cases same : first = other
        · simp [same]
        · simp [later, same, Ne.symm same]

theorem outstandingOf_foldl_failQuery :
    (queries.foldl failQuery table).outstandingOf other =
      if other ∈ queries then [] else table.outstandingOf other := by
  rw [outstandingOf, get?_outstanding_foldl_failQuery]
  split <;> rfl

theorem dependentsOf_foldl_failQuery :
    (queries.foldl failQuery table).dependentsOf ticket =
      (table.dependentsOf ticket).filter fun other =>
        !(queries.contains other && (table.outstandingOf other).contains ticket) := by
  induction queries generalizing table with
  | nil => exact (List.filter_eq_self.mpr fun _ _ => rfl).symm
  | cons first rest ih =>
      have dropped : (table.failQuery first).dependentsOf ticket =
          if ticket ∈ table.outstandingOf first then
            (table.dependentsOf ticket).filter fun other => other != first
          else table.dependentsOf ticket := getD_foldl_removeDependent
      have forgotten (other : QueryId) : (table.failQuery first).outstandingOf other =
          if first = other then [] else table.outstandingOf other := outstandingOf_forget
      rw [List.foldl_cons, ih, dropped]
      simp only [forgotten]
      split
      · rw [List.filter_filter]
        refine List.filter_congr fun other _ => ?_
        by_cases same : first = other
        · simp_all
        · simp [same, Ne.symm same]
      · refine List.filter_congr fun other _ => ?_
        by_cases same : first = other
        · simp_all
        · simp [same, Ne.symm same]

theorem mem_dependentsOf_foldl_failQuery :
    other ∈ (queries.foldl failQuery table).dependentsOf ticket ↔
      other ∈ table.dependentsOf ticket ∧
        ¬(other ∈ queries ∧ ticket ∈ table.outstandingOf other) := by
  rw [dependentsOf_foldl_failQuery, List.mem_filter, Bool.not_eq_true',
    ← Bool.not_eq_true, Bool.and_eq_true, List.contains_iff_mem, List.contains_iff_mem]

theorem foldl_failQuery_dependents_sublist :
    ((queries.foldl failQuery table).dependentsOf ticket).Sublist
      (table.dependentsOf ticket) := by
  rw [dependentsOf_foldl_failQuery]
  exact List.filter_sublist

theorem foldl_failQuery_dependents_ne_nil
    (inhabited : ∀ other, table.dependents.get? other ≠ some []) :
    (queries.foldl failQuery table).dependents.get? ticket ≠ some [] := by
  induction queries generalizing table with
  | nil => exact inhabited ticket
  | cons first rest ih =>
      exact ih fun other => get?_foldl_removeDependent_ne_nil inhabited

theorem mem_failed_foldl_failQuery :
    other ∈ (queries.foldl failQuery table).failed ↔
      other ∈ queries ∨ other ∈ table.failed := by
  induction queries generalizing table with
  | nil => simp
  | cons first rest ih =>
      have marked : other ∈ (table.failQuery first).failed ↔
          other = first ∨ other ∈ table.failed :=
        List.mem_insert_iff
      rw [List.foldl_cons, ih, marked, List.mem_cons, or_left_comm, or_assoc]

end Fail

section Finish

variable {queries : List QueryId} {outstanding : OrderedMap QueryId (List TicketId)}

theorem get?_foldl_clearOne :
    (queries.foldl (clearOne ticket) outstanding).get? query =
      if query ∈ queries then (outstanding.get? query).map
        fun tickets => tickets.filter fun other => other != ticket
      else outstanding.get? query := by
  induction queries generalizing outstanding with
  | nil => simp
  | cons first rest ih =>
      rw [List.foldl_cons, ih, clearOne, OrderedMap.get?_modify]
      by_cases same : first = query
      · simp [same, List.filter_filter, Function.comp_def]
      · simp [same, Ne.symm same]

theorem getD_foldl_clearOne :
    ((queries.foldl (clearOne ticket) outstanding).get? query).getD [] =
      if query ∈ queries then
        ((outstanding.get? query).getD []).filter fun other => other != ticket
      else (outstanding.get? query).getD [] := by
  rw [get?_foldl_clearOne]
  split
  · cases outstanding.get? query <;> rfl
  · rfl

end Finish

section Tracking

def untrack (table : TicketTable) (consumer : ConsumerId)
    (query : QueryId) : TicketTable :=
  { table with
    tracking := table.tracking.modify consumer
      fun queries => queries.filter fun other => other != query }

def untrackAll (table : TicketTable) (consumer : ConsumerId) : TicketTable :=
  { table with tracking := table.tracking.erase consumer }

theorem mem_trackedBy_untrack :
    other ∈ (table.untrack consumer query).trackedBy someone ↔
      other ∈ table.trackedBy someone ∧ ¬(someone = consumer ∧ other = query) := by
  simp only [trackedBy, untrack, OrderedMap.get?_modify]
  by_cases same : consumer = someone
  · subst same
    cases table.tracking.get? consumer <;> simp
  · simp [same, Ne.symm same]

theorem mem_trackedBy_untrackAll :
    other ∈ (table.untrackAll consumer).trackedBy someone ↔
      other ∈ table.trackedBy someone ∧ someone ≠ consumer := by
  simp only [trackedBy, untrackAll, OrderedMap.get?_erase]
  by_cases same : consumer = someone
  · simp [same]
  · simp [same, Ne.symm same]

theorem isTracked_iff (distinct : table.tracking.Distinct) :
    table.isTracked query = true ↔ ∃ consumer, query ∈ table.trackedBy consumer := by
  simp only [isTracked, List.any_eq_true, List.contains_iff_mem]
  constructor
  · rintro ⟨⟨consumer, queries⟩, member, found⟩
    refine ⟨consumer, ?_⟩
    rw [trackedBy, (OrderedMap.mem_iff_get? distinct).mp member]
    exact found
  · rintro ⟨consumer, found⟩
    cases tracked : table.tracking.get? consumer with
    | none => simp [trackedBy, tracked] at found
    | some queries =>
        refine ⟨(consumer, queries), OrderedMap.mem_of_get? tracked, ?_⟩
        simpa [trackedBy, tracked] using found

theorem mem_trackers_iff (distinct : table.tracking.Distinct) :
    consumer ∈ table.trackers query ↔ query ∈ table.trackedBy consumer := by
  simp only [trackers, Sorting.mem_sortOn, List.mem_map, List.mem_filter,
    List.contains_iff_mem]
  constructor
  · rintro ⟨⟨found, queries⟩, ⟨member, contained⟩, rfl⟩
    rw [trackedBy, (OrderedMap.mem_iff_get? distinct).mp member]
    exact contained
  · intro found
    cases tracked : table.tracking.get? consumer with
    | none => simp [trackedBy, tracked] at found
    | some queries =>
        refine ⟨(consumer, queries), ⟨OrderedMap.mem_of_get? tracked, ?_⟩, rfl⟩
        simpa [trackedBy, tracked] using found

end Tracking

end TicketFlow.TicketTable
