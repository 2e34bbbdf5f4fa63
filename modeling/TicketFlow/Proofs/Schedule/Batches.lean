import TicketFlow.Proofs.Schedule.Execution
import TicketFlow.Proofs.Schedule.Representation

namespace TicketFlow.TicketTable

/-! What a batch of replies does to the ticket table.

Replies for different tickets do not see each other: each counts for what it
would have counted for in the table that the batch found, and a query ends with
the batch if one of them fails a ticket that it waited for.  So the order of the
replies does not matter, neither to the table nor to a query that is not ended.
-/

section Vocabulary

/-- Enters the replies one after the other, and collects what is to be delivered. -/
def replyAll (table : TicketTable) : List Reply → Deliveries × TicketTable
  | [] => ([], table)
  | reply :: rest =>
      let (deliveries, next) := table.reply reply
      let (later, last) := next.replyAll rest
      (deliveries ++ later, last)

def Verdict.isAcceptance : Verdict → Bool
  | .accepted => true
  | _ => false

def Verdict.isFailure : Verdict → Bool
  | .fails _ => true
  | _ => false

/-- What the table makes of a reply. -/
def verdictOn (table : TicketTable) (reply : Reply) : Verdict :=
  (table.standingOf reply.ticket).verdict reply

/-- One of the replies gives the ticket its outputs. -/
def completes (table : TicketTable) (replies : List Reply) (id : TicketId) : Bool :=
  replies.any fun reply => decide (reply.ticket = id) && (table.verdictOn reply).isAcceptance

/-- One of the replies fails the ticket. -/
def fails (table : TicketTable) (replies : List Reply) (id : TicketId) : Bool :=
  replies.any fun reply => decide (reply.ticket = id) && (table.verdictOn reply).isFailure

/-- One of the replies fails a ticket that the query waits for. -/
def ends (table : TicketTable) (replies : List Reply) (query : QueryId) : Bool :=
  replies.any fun reply =>
    decide (reply.ticket ∈ table.outstandingOf query) && (table.verdictOn reply).isFailure

/-- The part of the deliveries that is about the query. -/
def about (query : QueryId) (deliveries : Deliveries) : Deliveries :=
  deliveries.filter fun delivery => decide (delivery.2.query = query)

/-- What the table has become by a batch of replies for different tickets. -/
structure Settles (table : TicketTable) (replies : List Reply)
    (after : TicketTable) : Prop where
  run : after.run = table.run
  tracking : after.tracking = table.tracking
  cache :
    ∀ id, after.cache.get? id = if table.fails replies id then none else table.cache.get? id
  kept : ∀ id, table.completes replies id = false →
    after.results.get? id = if table.fails replies id then none else table.results.get? id
  given : ∀ reply ∈ replies, (table.verdictOn reply).isAcceptance = true →
    ∃ outputs report, reply = .finished reply.ticket outputs report ∧
      after.results.get? reply.ticket = some outputs
  outstanding : ∀ query, after.outstanding.get? query =
    if table.ends replies query then none
    else (table.outstanding.get? query).map
      fun tickets => tickets.filter fun id => !table.completes replies id
  dependents : ∀ id, after.dependentsOf id =
    if table.completes replies id || table.fails replies id then []
    else (table.dependentsOf id).filter fun query => !table.ends replies query
  failed :
    ∀ query, query ∈ after.failed ↔ query ∈ table.failed ∨ table.ends replies query = true

/-- The same finite maps and the same sets. -/
structure Agrees (first second : TicketTable) : Prop where
  run : first.run = second.run
  cache : ∀ id, first.cache.get? id = second.cache.get? id
  results : ∀ id, first.results.get? id = second.results.get? id
  outstanding : ∀ query, first.outstanding.get? query = second.outstanding.get? query
  dependents : ∀ id, first.dependents.get? id = second.dependents.get? id
  tracking : first.tracking = second.tracking
  failed : ∀ query, query ∈ first.failed ↔ query ∈ second.failed

end Vocabulary

variable {table mid after first second : TicketTable} {reply : Reply}
  {replies reordered : List Reply} {query : QueryId} {id : TicketId}

section One

theorem settles_ignored (ignored : table.verdictOn reply = .ignored) :
    table.Settles [reply] table := by
  have none_completed (id : TicketId) : table.completes [reply] id = false := by
    simp [completes, ignored, Verdict.isAcceptance]
  have none_failed (id : TicketId) : table.fails [reply] id = false := by
    simp [fails, ignored, Verdict.isFailure]
  have none_ended (query : QueryId) : table.ends [reply] query = false := by
    simp [ends, ignored, Verdict.isFailure]
  refine ⟨rfl, rfl, ?_, ?_, ?_, ?_, ?_, ?_⟩
  · simp [none_failed]
  · simp [none_failed]
  · simp [ignored, Verdict.isAcceptance]
  · simp [none_ended, none_completed]
  · simp [none_ended, none_completed, none_failed]
  · simp [none_ended]

theorem settles_accepted (indexed : table.Indexed) {outputs : List Compound}
    {report : List ReportEntry} (accepted : table.verdictOn reply = .accepted)
    (same : reply = .finished reply.ticket outputs report) :
    table.Settles [reply] (table.afterCompletion reply.ticket outputs) := by
  have completed
      (id : TicketId) : table.completes [reply] id = decide (reply.ticket = id) := by
    simp [completes, accepted, Verdict.isAcceptance]
  have none_failed (id : TicketId) : table.fails [reply] id = false := by
    simp [fails, accepted, Verdict.isFailure]
  have none_ended (query : QueryId) : table.ends [reply] query = false := by
    simp [ends, accepted, Verdict.isFailure]
  refine ⟨rfl, rfl, ?_, ?_, ?_, ?_, ?_, ?_⟩
  · simp [none_failed, TicketTable.afterCompletion]
  · intro id other
    have apart : reply.ticket ≠ id := by simpa [completed] using other
    simp [none_failed, TicketTable.afterCompletion, OrderedMap.get?_insert, apart]
  · intro other member _
    obtain rfl := List.mem_singleton.mp member
    exact ⟨outputs, report, same, OrderedMap.get?_insert_self⟩
  · intro query
    have cleared : (table.afterCompletion reply.ticket outputs).outstanding.get? query = _ :=
      get?_foldl_clearOne
    rw [cleared, none_ended]
    simp only [completed, Bool.false_eq_true, if_false, mem_waiting_iff,
      ← indexed.related]
    have sameFilter
        (tickets : List TicketId) : (tickets.filter fun other => other != reply.ticket) =
        tickets.filter fun id => !decide (reply.ticket = id) := by
      refine List.filter_congr fun id _ => ?_
      rw [Bool.eq_iff_iff]
      simp [eq_comm (a := id)]
    split
    · simp only [sameFilter]
    next other =>
      cases found : table.outstanding.get? query with
      | none => rfl
      | some tickets =>
          have waits : table.outstandingOf query = tickets := by
            simp [outstandingOf, found]
          rw [Option.map_some, List.filter_eq_self.mpr]
          intro id member
          have apart : reply.ticket ≠ id := by
            rintro rfl
            exact other (waits ▸ member)
          simp [apart]
  · intro id
    rw [dependentsOf_afterCompletion]
    simp [completed, none_failed, none_ended]
  · simp [none_ended, TicketTable.afterCompletion]

theorem settles_fails (indexed : table.Indexed) {failure : Failure}
    (failing : table.verdictOn reply = .fails failure) :
    table.Settles [reply] (table.afterFailure reply.ticket) := by
  have none_completed (id : TicketId) : table.completes [reply] id = false := by
    simp [completes, failing, Verdict.isAcceptance]
  have failed (id : TicketId) : table.fails [reply] id = decide (reply.ticket = id) := by
    simp [fails, failing, Verdict.isFailure]
  have ended (query : QueryId) :
      table.ends [reply] query = decide (reply.ticket ∈ table.outstandingOf query) := by
    simp [ends, failing, Verdict.isFailure]
  refine ⟨run_foldl fun _ _ => rfl, afterFailure_frame.2.2, ?_, ?_, ?_, ?_, ?_, ?_⟩
  · intro id
    rw [afterFailure_frame.1, OrderedMap.get?_erase]
    simp [failed]
  · intro id _
    rw [afterFailure_frame.2.1, OrderedMap.get?_erase]
    simp [failed]
  · intro other member
    obtain rfl := List.mem_singleton.mp member
    simp [failing, Verdict.isAcceptance]
  · intro query
    rw [TicketTable.afterFailure, get?_outstanding_foldl_failQuery]
    simp [ended, none_completed, mem_waiting_iff, ← indexed.related, TicketTable.evict]
  · intro id
    rw [TicketTable.afterFailure, dependentsOf_foldl_failQuery, dependentsOf_evict]
    by_cases same : reply.ticket = id
    · simp [same, failed]
    · simp only [same, if_false, none_completed, failed, decide_false, Bool.or_self,
        Bool.false_eq_true]
      refine List.filter_congr fun query awaited => ?_
      have waits : id ∈ (table.evict reply.ticket).outstandingOf query :=
        indexed.related.mpr awaited
      simp [ended, waits, mem_waiting_iff, indexed.related]
  · intro query
    rw [mem_failed_afterFailure indexed, ended]
    simp [or_comm]

/-- A single reply settles itself. -/
theorem settles_reply (indexed : table.Indexed) (reply : Reply) :
    table.Settles [reply] (table.reply reply).2 := by
  cases verdict : table.verdictOn reply with
  | ignored => rw [reply_ignored verdict]; exact settles_ignored verdict
  | accepted =>
      obtain ⟨_, outputs, report, same, _, _, _, answer⟩ := reply_accepted verdict
      rw [answer]
      exact settles_accepted indexed verdict same
  | fails failure => rw [reply_fails verdict]; exact settles_fails indexed verdict

end One

section Many

variable {front back : List Reply}

theorem any_congr_of_mem {p q : Reply → Bool}
    (same : ∀ reply ∈ replies, p reply = q reply) : replies.any p = replies.any q := by
  rw [Bool.eq_iff_iff, List.any_eq_true, List.any_eq_true]
  exact exists_congr fun reply => and_congr_right fun member => by rw [same reply member]

/-- No reply is for the ticket. -/
theorem untouched_of_not_mem (table : TicketTable)
    (unnamed : id ∉ replies.map Reply.ticket) :
    table.completes replies id = false ∧ table.fails replies id = false := by
  have apart : ∀ reply ∈ replies, reply.ticket ≠ id := fun reply member same =>
    unnamed (List.mem_map.mpr ⟨reply, member, same⟩)
  constructor <;>
    exact List.any_eq_false.mpr fun reply member => by simp [apart reply member]

theorem Settles.outstandingOf (settles : table.Settles replies mid) (query : QueryId) :
    mid.outstandingOf query =
      if table.ends replies query then []
      else (table.outstandingOf query).filter fun id => !table.completes replies id := by
  rw [TicketTable.outstandingOf, settles.outstanding]
  split
  · rfl
  · rw [TicketTable.outstandingOf]
    cases table.outstanding.get? query <;> rfl

/-- A ticket for which no reply came is as it was. -/
theorem Settles.standingOf (settles : table.Settles replies mid)
    (unnamed : id ∉ replies.map Reply.ticket) :
    mid.standingOf id = table.standingOf id := by
  obtain ⟨uncompleted, unfailed⟩ := table.untouched_of_not_mem unnamed
  refine standingOf_congr ?_ ?_
  · rw [settles.cache, unfailed, if_neg Bool.false_ne_true]
  · rw [settles.kept id uncompleted, unfailed, if_neg Bool.false_ne_true]

/-- Later replies for other tickets count for what they would have counted for before. -/
structure Unaware (table mid : TicketTable) (front back : List Reply) : Prop where
  verdictOn : ∀ reply ∈ back, mid.verdictOn reply = table.verdictOn reply
  completes : ∀ id, mid.completes back id = table.completes back id
  fails : ∀ id, mid.fails back id = table.fails back id
  ends : ∀ query, mid.ends back query = (!table.ends front query && table.ends back query)

theorem Settles.unaware (settles : table.Settles front mid)
    (apart : ∀ reply ∈ back, reply.ticket ∉ front.map Reply.ticket) :
    Unaware table mid front back := by
  have verdicts : ∀ reply ∈ back, mid.verdictOn reply = table.verdictOn reply :=
    fun reply member => by
    rw [TicketTable.verdictOn, settles.standingOf (apart reply member),
      ← TicketTable.verdictOn]
  refine ⟨verdicts, fun id => ?_, fun id => ?_, fun query => ?_⟩
  · exact any_congr_of_mem fun reply member => by rw [verdicts reply member]
  · exact any_congr_of_mem fun reply member => by rw [verdicts reply member]
  · have waits : ∀ reply ∈ back, decide (reply.ticket ∈ mid.outstandingOf query) =
        (!table.ends front query && decide (reply.ticket ∈ table.outstandingOf query)) := by
      intro reply member
      have uncompleted := (table.untouched_of_not_mem (apart reply member)).1
      rw [settles.outstandingOf]
      cases table.ends front query <;> simp [uncompleted]
    cases ended : table.ends front query with
    | true =>
        refine List.any_eq_false.mpr fun reply member => ?_
        simp [waits reply member, ended]
    | false =>
        exact any_congr_of_mem
          fun reply member => by simp [waits reply member, ended, verdicts reply member]

theorem apart_of_fresh (fresh : reply.ticket ∉ replies.map Reply.ticket) :
    ∀ other ∈ replies, other.ticket ∉ [reply].map Reply.ticket := by
  intro other member named
  have same : other.ticket = reply.ticket := by simpa using named
  exact fresh (same ▸ List.mem_map_of_mem member)

theorem completes_append :
    table.completes (front ++ back) id =
      (table.completes front id || table.completes back id) :=
  List.any_append

theorem fails_append :
    table.fails (front ++ back) id = (table.fails front id || table.fails back id) :=
  List.any_append

theorem ends_append :
    table.ends (front ++ back) query = (table.ends front query || table.ends back query) :=
  List.any_append

/-- Two batches for different tickets are one batch. -/
theorem Settles.append (first : table.Settles front mid) (second : mid.Settles back after)
    (apart : ∀ reply ∈ back, reply.ticket ∉ front.map Reply.ticket) :
    table.Settles (front ++ back) after := by
  have unaware := first.unaware apart
  refine ⟨second.run.trans first.run, second.tracking.trans first.tracking, ?_,
    ?_, ?_, ?_, ?_, ?_⟩
  · intro id
    rw [second.cache, first.cache, unaware.fails, fails_append]
    cases table.fails front id <;> cases table.fails back id <;> rfl
  · intro id uncompleted
    rw [completes_append, Bool.or_eq_false_iff] at uncompleted
    rw [second.kept id (by rw [unaware.completes, uncompleted.2]),
      first.kept id uncompleted.1, unaware.fails, fails_append]
    cases table.fails front id <;> cases table.fails back id <;> rfl
  · intro reply member accepted
    rcases List.mem_append.mp member with early | late
    · obtain ⟨outputs, report, same, stored⟩ := first.given reply early accepted
      have unnamed : reply.ticket ∉ back.map Reply.ticket := by
        rintro named
        obtain ⟨other, inside, same⟩ := List.mem_map.mp named
        exact apart other inside (same ▸ List.mem_map_of_mem early)
      obtain ⟨uncompleted, unfailed⟩ := mid.untouched_of_not_mem unnamed
      refine ⟨outputs, report, same, ?_⟩
      rw [second.kept _ uncompleted, unfailed, if_neg Bool.false_ne_true, stored]
    · exact second.given reply late (by rw [unaware.verdictOn reply late, accepted])
  · intro query
    rw [second.outstanding, first.outstanding, unaware.ends, ends_append]
    cases table.ends front query <;> cases table.ends back query <;>
      simp [unaware.completes, completes_append, List.filter_filter,
        Function.comp_def, Bool.and_comm]
  · intro id
    rw [second.dependents, first.dependents, unaware.completes, unaware.fails,
      completes_append, fails_append]
    cases table.completes front id <;> cases table.fails front id <;>
      cases table.completes back id <;> cases table.fails back id <;> simp [unaware.ends,
      ends_append, List.filter_filter]
    refine List.filter_congr fun query _ => ?_
    cases table.ends front query <;> cases table.ends back query <;> rfl
  · intro query
    rw [second.failed, first.failed, unaware.ends, ends_append]
    cases table.ends front query <;> simp

theorem Consistent.replyAll (consistent : table.Consistent) (replies : List Reply) :
    (table.replyAll replies).2.Consistent := by
  induction replies generalizing table with
  | nil => exact consistent
  | cons reply rest ih => exact ih (consistent.perform (.reply reply))

/-- What a batch makes of the table is said by each of its replies on
the table that it found. -/
theorem settles_replyAll (consistent : table.Consistent)
    (distinct : (replies.map Reply.ticket).Nodup) :
    table.Settles replies (table.replyAll replies).2 := by
  induction replies generalizing table with
  | nil =>
      refine ⟨rfl, rfl, fun _ => rfl, fun _ _ => rfl, by simp, ?_, ?_, ?_⟩
      · simp [ends, completes, TicketTable.replyAll]
      · simp [ends, completes, fails, TicketTable.replyAll]
      · simp [ends, TicketTable.replyAll]
  | cons reply rest ih =>
      obtain ⟨fresh, distinct⟩ := List.nodup_cons.mp distinct
      have later := ih (consistent.perform (.reply reply)) distinct
      exact (settles_reply consistent.toIndexed reply).append later (apart_of_fresh fresh)

end Many

section Told

/-- The event that a reply brings to the queries that wait for its ticket. -/
def Verdict.event? : Verdict → Reply → Option (QueryId → QueryEvent)
  | .accepted, .finished ticket _ report =>
      some fun query => .ticketFinished query ticket report
  | .fails failure, _ => some fun query => .queryFailed query failure
  | _, _ => none

theorem Verdict.query_event? {verdict : Verdict} {event : QueryId → QueryEvent}
    (brings : verdict.event? reply = some event) (query : QueryId) :
    (event query).query = query := by
  unfold event? at brings
  split at brings <;> simp only [Option.some.injEq,
    reduceCtorEq] at brings <;> subst brings <;> rfl

theorem deliveries_reply (table : TicketTable) (reply : Reply) :
    (table.reply reply).1 =
      (((table.verdictOn reply).event? reply).map (table.deliveries reply.ticket)).getD
        [] := by
  cases verdict : table.verdictOn reply with
  | ignored => rw [reply_ignored verdict]; rfl
  | accepted =>
      obtain ⟨_, outputs, report, same, _, _, _, answer⟩ := reply_accepted verdict
      rw [answer, same]
      rfl
  | fails failure => rw [reply_fails verdict]; rfl

theorem flatMap_ite_eq {α β : Type} [DecidableEq α] {list : List α}
    {value : α} {image : List β} (once : list.Nodup) :
    (list.flatMap fun other => if other = value then image else []) =
      if value ∈ list then image else [] := by
  induction list with
  | nil => rfl
  | cons first rest ih =>
      obtain ⟨fresh, once⟩ := List.nodup_cons.mp once
      rw [List.flatMap_cons, ih once]
      by_cases same : first = value
      · subst same
        simp [fresh]
      · simp [same, Ne.symm same]

/-- A query that waits for the ticket is told once for each of its consumers. -/
theorem Consistent.about_deliveries (consistent : table.Consistent)
    {event : QueryId → QueryEvent} (named : ∀ query, (event query).query = query) :
    about query (table.deliveries id event) =
      if id ∈ table.outstandingOf query then
        (table.trackers query).map fun consumer => (consumer, event query) else [] := by
  have each (other : QueryId) :
      about query ((table.trackers other).map fun consumer => (consumer, event other)) =
        if other = query then
        (table.trackers query).map fun consumer => (consumer, event query) else [] := by
    by_cases same : other = query
    · subst same
      simp [about, List.filter_eq_self, named]
    · simp [about, List.filter_eq_nil_iff, named, same]
  have once : (table.waiting id).Nodup :=
    (Sorting.perm_sortOn _).nodup_iff.mpr (consistent.unrepeated id)
  calc about query (table.deliveries id event)
      = (table.waiting id).flatMap fun other => about query
        ((table.trackers other).map fun consumer => (consumer, event other)) := by
        rw [about, deliveries, List.filter_flatMap]
        rfl
    _ = if query ∈ table.waiting id then
        (table.trackers query).map fun consumer => (consumer, event query) else [] := by
        simp only [each]
        exact flatMap_ite_eq once
    _ = _ := by simp only [mem_waiting_iff, consistent.related]

theorem Consistent.about_reply (consistent : table.Consistent) (reply : Reply) :
    about query (table.reply reply).1 =
      if reply.ticket ∈ table.outstandingOf query then
        (((table.verdictOn reply).event? reply).map fun event =>
          (table.trackers query).map fun consumer => (consumer, event query)).getD []
      else [] := by
  rw [deliveries_reply]
  cases brings : (table.verdictOn reply).event? reply with
  | none => simp [about]
  | some event => exact consistent.about_deliveries (Verdict.query_event? brings)

/-- Earlier replies that do not end a query do not change what a later one tells it. -/
theorem Settles.about_reply (settles : table.Settles replies mid)
    (consistent : table.Consistent) (later : mid.Consistent)
    (fresh : reply.ticket ∉ replies.map Reply.ticket)
    (unended : table.ends replies query = false) :
    about query (mid.reply reply).1 = about query (table.reply reply).1 := by
  have waits : reply.ticket ∈ mid.outstandingOf query ↔
      reply.ticket ∈ table.outstandingOf query := by
    rw [settles.outstandingOf, unended]
    simp [(table.untouched_of_not_mem fresh).1]
  have verdict : mid.verdictOn reply = table.verdictOn reply := by
    rw [verdictOn, settles.standingOf fresh, ← verdictOn]
  have trackers : mid.trackers query = table.trackers query := by
    rw [TicketTable.trackers, settles.tracking, ← TicketTable.trackers]
  rw [later.about_reply, consistent.about_reply, verdict, trackers]
  simp only [waits]

/-- A query that the batch does not end is told by each reply what that tells it alone. -/
theorem about_replyAll (consistent : table.Consistent)
    (distinct : (replies.map Reply.ticket).Nodup)
    (unended : table.ends replies query = false) :
    about query (table.replyAll replies).1 =
      replies.flatMap fun reply => about query (table.reply reply).1 := by
  induction replies generalizing table with
  | nil => rfl
  | cons reply rest ih =>
      obtain ⟨fresh, distinct⟩ := List.nodup_cons.mp distinct
      have apart := apart_of_fresh fresh
      have settles := settles_reply consistent.toIndexed reply
      have next : (table.reply reply).2.Consistent := consistent.perform (.reply reply)
      have split : table.ends ([reply] ++ rest) query = false := unended
      rw [ends_append, Bool.or_eq_false_iff] at split
      have tail :=
        ih next distinct (by rw [(settles.unaware apart).ends, split.2, Bool.and_false])
      have same : ∀ other ∈ rest, about query ((table.reply reply).2.reply other).1 =
          about query (table.reply other).1 :=
        fun other member =>
          settles.about_reply consistent next (apart other member) split.1
      calc about query (table.replyAll (reply :: rest)).1
          = about query (table.reply reply).1 ++
            about query ((table.reply reply).2.replyAll rest).1 :=
            List.filter_append _ _
        _ = _ := by rw [tail, List.flatMap_congr same, List.flatMap_cons]

end Told

section Order

theorem ends_perm (perm : replies.Perm reordered) :
    table.ends replies query = table.ends reordered query :=
  perm.any_eq

/-- Two batches of the same replies settle to the same table. -/
theorem Settles.agrees (left : table.Settles replies first)
    (right : table.Settles reordered second) (perm : replies.Perm reordered)
    (inhabited : ∀ id, first.dependents.get? id ≠ some [])
    (inhabitedToo : ∀ id, second.dependents.get? id ≠ some []) : first.Agrees second := by
  have completes (id : TicketId) :
      table.completes replies id = table.completes reordered id := perm.any_eq
  have fails (id : TicketId) : table.fails replies id = table.fails reordered id :=
    perm.any_eq
  have ends (query : QueryId) : table.ends replies query = table.ends reordered query :=
    ends_perm perm
  refine ⟨left.run.trans right.run.symm, fun id => ?_, fun id => ?_, fun query => ?_,
    fun id => ?_, left.tracking.trans right.tracking.symm, fun query => ?_⟩
  · rw [left.cache, right.cache, fails]
  · cases completed : table.completes replies id with
    | false =>
        rw [left.kept id completed, right.kept id (completes id ▸ completed), fails]
    | true =>
        obtain ⟨reply, member, accepts⟩ := List.any_eq_true.mp completed
        simp only [Bool.and_eq_true, decide_eq_true_eq] at accepts
        obtain ⟨rfl, accepts⟩ := accepts
        obtain ⟨outputs, report, same, stored⟩ := left.given reply member accepts
        obtain ⟨outputsToo, reportToo, alike, storedToo⟩ :=
          right.given reply (perm.mem_iff.mp member) accepts
        obtain ⟨_, rfl, _⟩ := Reply.finished.inj (same.symm.trans alike)
        rw [stored, storedToo]
  · rw [left.outstanding, right.outstanding, ends]
    simp only [completes]
  · have dependents : first.dependentsOf id = second.dependentsOf id := by
      rw [left.dependents, right.dependents, completes, fails]
      simp only [ends]
    have one := inhabited id
    have two := inhabitedToo id
    unfold dependentsOf at dependents
    cases here : first.dependents.get? id <;>
      cases there : second.dependents.get? id <;> simp_all
  · rw [left.failed, right.failed, ends]

theorem Agrees.isFailed (agrees : first.Agrees second) (query : QueryId) :
    first.isFailed query = second.isFailed query := by
  rw [Bool.eq_iff_iff]
  simpa [TicketTable.isFailed] using agrees.failed query

theorem Agrees.isQueueClear (agrees : first.Agrees second) (query : QueryId) :
    first.isQueueClear query = second.isQueueClear query := by
  rw [TicketTable.isQueueClear, agrees.isFailed, outstandingOf, agrees.outstanding]
  rfl

theorem Agrees.output? (agrees : first.Agrees second) (id : TicketId) (channel : Nat) :
    first.output? id channel = second.output? id channel := by
  cases channel with
  | zero => rfl
  | succ index => rw [TicketTable.output?, agrees.results, ← TicketTable.output?]

/-- The order in which replies for different tickets arrive makes no difference: the table
becomes the same, and a query that none of them ends is told the same. -/
theorem replies_commute (run : RunId) (history : History)
    (distinct : (replies.map Reply.ticket).Nodup) (perm : replies.Perm reordered) :
    let first := (replay run history).replyAll replies
    let second := (replay run history).replyAll reordered
    first.2.Agrees second.2 ∧
      (∀ query, first.2.isFailed query = second.2.isFailed query ∧
        first.2.isQueueClear query = second.2.isQueueClear query) ∧
      (∀ id channel, first.2.output? id channel = second.2.output? id channel) ∧
      ∀ query, first.2.isFailed query = false →
        (about query first.1).Perm (about query second.1) := by
  have consistent := (reflects_replay run history).consistent
  have reordered_distinct : (reordered.map Reply.ticket).Nodup :=
    (perm.map Reply.ticket).nodup_iff.mp distinct
  have left := settles_replyAll consistent distinct
  have right := settles_replyAll consistent reordered_distinct
  have agrees :=
    left.agrees right perm (consistent.replyAll replies).inhabited
      (consistent.replyAll reordered).inhabited
  refine ⟨agrees, fun query => ⟨agrees.isFailed query, agrees.isQueueClear query⟩,
    agrees.output?, fun query unfailed => ?_⟩
  have unended : (replay run history).ends replies query = false := by
    by_contra ended
    have failed := (left.failed query).mpr (.inr (by simpa using ended))
    simp [TicketTable.isFailed, failed] at unfailed
  rw [about_replyAll consistent distinct unended,
    about_replyAll consistent reordered_distinct (ends_perm perm ▸ unended)]
  exact perm.flatMap_right _

end Order

section Samples

def pageTicket : Ticket :=
  Ticket.create Engine.fetchRun Engine.fetchTask [("url", [.str "b"])]

/-- One query asked for two pages, another one for the second page only. -/
def pagesAsked : History :=
  [.request ⟨2⟩ ⟨2⟩ pageTicket, .request ⟨1⟩ ⟨1⟩ pageTicket,
    .request ⟨1⟩ ⟨1⟩ Engine.fetchTicket]

def pageReplies : List Reply :=
  [Engine.fetchFailed, .finished pageTicket.id [[.str "p"]] []]

/-- The failure of the first page ends one query, which the second page reaches in
one of the orders only. -/
theorem replies_commute_pages :
    (pageReplies.map Reply.ticket).Nodup ∧ pageReplies.Perm pageReplies.reverse ∧
      let table := replay Engine.fetchRun pagesAsked
      (table.replyAll pageReplies).2.isFailed ⟨1⟩ = true ∧
        (table.replyAll pageReplies).2.isFailed ⟨2⟩ = false ∧
        (table.replyAll pageReplies).2.Agrees (table.replyAll pageReplies.reverse).2 ∧
        (about ⟨2⟩ (table.replyAll pageReplies).1).Perm
          (about ⟨2⟩ (table.replyAll pageReplies.reverse).1) := by
  have evaluated : (pageReplies.map Reply.ticket).Nodup ∧
      ((replay Engine.fetchRun pagesAsked).replyAll pageReplies).2.isFailed ⟨1⟩ = true ∧
      ((replay Engine.fetchRun pagesAsked).replyAll pageReplies).2.isFailed ⟨2⟩ = false := by
    decide +kernel
  obtain ⟨distinct, ended, running⟩ := evaluated
  have perm : pageReplies.Perm pageReplies.reverse := (List.reverse_perm pageReplies).symm
  obtain ⟨agrees, _, _, told⟩ := replies_commute Engine.fetchRun pagesAsked distinct perm
  exact ⟨distinct, perm, ended, running, agrees, told ⟨2⟩ running⟩

end Samples

end TicketFlow.TicketTable
