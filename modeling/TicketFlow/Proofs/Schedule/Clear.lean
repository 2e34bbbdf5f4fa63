import TicketFlow.Proofs.Schedule.History

namespace TicketFlow.TicketTable

/-! What a clear queue says of the tickets that a query asked for.

A query is clear when it waits for nothing and none of its tickets failed.  The
failed mark is set only where the query still waits, so a failure that arrives
for a ticket with stored outputs leaves the query clear and takes the outputs
away.  Nothing else does.
-/

section Vocabulary

namespace History

/-- The query asked for the ticket in the latest operation of `asked`, and was tracked
at every moment since. -/
structure Holds (history asked : History) (query : QueryId) (id : TicketId) : Prop where
  since : asked <:+ history
  request :
    ∃ consumer ticket earlier,
    asked = .request consumer query ticket :: earlier ∧ ticket.id = id
  tracked :
    ∀ moment : History, asked <:+ moment → moment <:+ history →
    ∃ consumer, moment.Tracks consumer query

/-- The ticket failed after the request. -/
def FailedSince (history asked : History) (id : TicketId) : Prop :=
  ∃ (operation : Operation) (moment : History), asked <:+ moment ∧
    operation :: moment <:+ history ∧ moment.Fails operation id

/-- The ticket failed after the request, at a moment when its outputs were stored. -/
def OverturnedSince (history asked : History) (id : TicketId) : Prop :=
  ∃ (operation : Operation) (moment : History) (cached : Ticket), asked <:+ moment ∧
    operation :: moment <:+ history ∧ moment.Fails operation id ∧
    moment.standing id = .done cached

end History

/-- The ticket is cached, and all its outputs are there. -/
def Resolved (table : TicketTable) (id : TicketId) : Prop :=
  ∃ cached, table.cached? id = some cached ∧
    ∀ channel, 1 ≤ channel → channel ≤ cached.arity →
      ∃ value, table.output? id channel = some value

end Vocabulary

variable {table : TicketTable} {history asked : History} {operation : Operation}
  {query : QueryId} {id : TicketId}

section Failed

theorem isQueueClear_iff :
    table.isQueueClear query = true ↔
      query ∉ table.failed ∧ table.outstandingOf query = [] := by
  simp [isQueueClear, isFailed]

/-- A query is marked when a ticket that it waits for fails, and stays
so while it is tracked. -/
theorem Reflects.mem_failed_perform (reflects : Reflects history table) :
    query ∈ (table.perform operation).2.failed ↔
      (query ∈ table.failed ∨
        ∃ id, id ∈ table.outstandingOf query ∧ history.Fails operation id) ∧
        ∃ consumer, History.Tracks (operation :: history) consumer query := by
  rw [reflects.consistent.mem_failed_perform, (reflects.perform operation).isTracked_iff]
  have fails :
      (∃ reply failure, operation = .reply reply ∧ reply.ticket ∈ table.outstandingOf query ∧
        (table.standingOf reply.ticket).verdict reply = .fails failure) ↔
        ∃ id, id ∈ table.outstandingOf query ∧ history.Fails operation id := by
    constructor
    · rintro ⟨reply, failure, rfl, waits, verdict⟩
      exact ⟨reply.ticket, waits, reply, failure, rfl, rfl,
        reflects.verdict.symm.trans verdict⟩
    · rintro ⟨_, waits, reply, failure, rfl, rfl, verdict⟩
      exact ⟨reply, failure, rfl, waits, reflects.verdict.trans verdict⟩
  rw [fails]

end Failed

section Moments

variable {run : RunId}

theorem History.failedSince_cons (since : asked <:+ history) :
    FailedSince (operation :: history) asked id ↔
      FailedSince history asked id ∨ history.Fails operation id := by
  constructor
  · rintro ⟨failing, moment, later, within, fails⟩
    rcases List.suffix_cons_iff.mp within with same | within
    · obtain ⟨rfl, rfl⟩ := List.cons.inj same
      exact .inr fails
    · exact .inl ⟨failing, moment, later, within, fails⟩
  · rintro (⟨failing, moment, later, within, fails⟩ | fails)
    · exact ⟨failing, moment, later, within.trans (List.suffix_cons operation history), fails⟩
    · exact ⟨operation, history, since, List.suffix_rfl, fails⟩

theorem History.not_failedSince_self : ¬FailedSince asked asked id := by
  rintro ⟨_, moment, later, within, _⟩
  have shorter := within.length_le
  have longer := later.length_le
  simp at shorter
  omega

/-- A consumer that asks for a ticket and then neither releases the query nor
detaches keeps it tracked. -/
theorem History.holds_of_steady {later earlier : History} {consumer : ConsumerId}
    {ticket : Ticket} (unreleased : .release consumer query ∉ later)
    (undetached : .detach consumer ∉ later) :
    Holds (later ++ .request consumer query ticket :: earlier)
      (.request consumer query ticket :: earlier) query
      ticket.id where
  since := List.suffix_append later _
  request := ⟨consumer, ticket, earlier, rfl, rfl⟩
  tracked := by
    rintro _ ⟨between, rfl⟩ ⟨newer, same⟩
    rw [← List.append_assoc] at same
    obtain rfl := List.append_cancel_right same
    rw [List.mem_append, not_or] at unreleased undetached
    exact ⟨consumer, between, ticket, earlier, rfl, unreleased.2, undetached.2⟩

theorem History.OverturnedSince.cons (overturned : OverturnedSince history asked id) :
    OverturnedSince (operation :: history) asked id := by
  obtain ⟨failing, moment, cached, later, within, overturns⟩ := overturned
  exact ⟨failing, moment, cached, later,
    within.trans (List.suffix_cons operation history), overturns⟩

/-- The ticket is waited for or finished, and did not fail since the request. -/
def Pursued (run : RunId) (history asked : History) (query : QueryId)
    (id : TicketId) : Prop :=
  ¬history.FailedSince asked id ∧
    (id ∈ (replay run history).outstandingOf query ∨
      ∃ cached, history.standing id = .done cached)

theorem pursued_request {consumer : ConsumerId} {ticket : Ticket}
    {earlier : History} (named : ticket.id = id) :
    Pursued run (.request consumer query ticket :: earlier)
      (.request consumer query ticket :: earlier) query id := by
  refine ⟨History.not_failedSince_self, ?_⟩
  have reflects := reflects_replay run earlier
  by_cases unfinished : earlier.Unfinished id
  · exact .inl (reflects.mem_outstandingOf_perform.mpr
      (.inl ⟨consumer, ticket, rfl, named, unfinished⟩))
  · simp only [History.Unfinished, ne_eq, not_forall, not_not] at unfinished
    obtain ⟨cached, done⟩ := unfinished
    exact .inr ⟨cached, by simp [History.standing, Standing.after, done]⟩

/-- While the query is tracked, a pursued ticket stays so, unless the query is marked
failed or a failure comes for the finished ticket. -/
theorem pursued_cons (since : asked <:+ history)
    (pursued : Pursued run history asked query id)
    (tracked : ∃ consumer, History.Tracks (operation :: history) consumer query)
    (upheld : ¬History.OverturnedSince (operation :: history) asked id) :
    query ∈ (replay run (operation :: history)).failed ∨
      Pursued run (operation :: history) asked query id := by
  have reflects := reflects_replay run history
  obtain ⟨unfailed, waits | ⟨cached, done⟩⟩ := pursued
  · by_cases fails : ∃ other, other ∈ (replay run history).outstandingOf query ∧
      history.Fails operation other
    · exact .inl (reflects.mem_failed_perform.mpr ⟨.inr fails, tracked⟩)
    · have survives : ∀ other, other ∈ (replay run history).outstandingOf query →
          ¬history.Fails operation other :=
        fun other waits failing => fails ⟨other, waits, failing⟩
      refine .inr ⟨fun failed => ?_, ?_⟩
      · exact ((History.failedSince_cons since).mp failed).elim unfailed (survives id waits)
      · by_cases completes : history.Completes operation id
        · obtain ⟨reply, rfl, rfl, accepted⟩ := completes
          obtain ⟨cached, outputs, report, _, known, unfinished, _, _⟩ :=
            reply_accepted (reflects.verdict.trans accepted)
          have pending : history.standing reply.ticket = .pending cached :=
            (reflects.standing reply.ticket).symm.trans
              (standingOf_pending known unfinished)
          rw [History.verdict, pending] at accepted
          exact .inr ⟨cached, by simp [History.standing, Standing.after, pending, accepted]⟩
        · exact .inl (reflects.mem_outstandingOf_perform.mpr
            (.inr ⟨waits, completes, survives, tracked⟩))
  · have stands : ¬history.Fails operation id := fun fails =>
      upheld ⟨operation, history, cached, since, List.suffix_rfl, fails, done⟩
    refine .inr
      ⟨fun failed => ((History.failedSince_cons since).mp failed).elim unfailed stands,
        .inr ⟨cached, ?_⟩⟩
    rw [History.standing, done]
    cases operation with
    | request consumer asking ticket => rfl
    | reply reply =>
        by_cases named : reply.ticket = id
        · subst named
          cases verdict : (Standing.done cached).verdict reply with
          | ignored => simp [Standing.after, verdict]
          | accepted => simp [Standing.after, verdict]
          | fails failure =>
              refine absurd ⟨reply, failure, rfl, rfl, ?_⟩ stands
              rw [History.verdict, done, verdict]
        · simp [Standing.after, named]
    | release consumer released => rfl
    | detach consumer => rfl

/-- A query that is not marked failed has pursued whatever it asked for. -/
theorem pursued_of_holds (held : history.Holds asked query id)
    (upheld : ¬history.OverturnedSince asked id) :
    query ∈ (replay run history).failed ∨ Pursued run history asked query id := by
  obtain ⟨later, rfl⟩ := held.since
  obtain ⟨consumer, ticket, earlier, request, named⟩ := held.request
  induction later with
  | nil =>
      subst request
      exact .inr (pursued_request named)
  | cons operation later ih =>
      have since : asked <:+ later ++ asked := List.suffix_append later asked
      have grows : later ++ asked <:+ operation :: (later ++ asked) :=
        List.suffix_cons operation _
      have tracked :=
        held.tracked (operation :: (later ++ asked)) (since.trans grows) List.suffix_rfl
      have before : History.Holds (later ++ asked) asked query id :=
        { since
          request := held.request
          tracked := fun moment after within =>
            held.tracked moment after (within.trans grows) }
      rcases ih before fun overturned => upheld overturned.cons with failed | pursued
      · exact .inl ((reflects_replay run (later ++ asked)).mem_failed_perform.mpr
          ⟨.inl failed, tracked⟩)
      · exact pursued_cons since pursued tracked upheld

end Moments

section Resolution

variable {run : RunId}

/-- The outputs of a finished ticket are all there. -/
theorem Consistent.resolved (consistent : table.Consistent) {cached : Ticket}
    (done : table.standingOf id = .done cached) : table.Resolved id := by
  unfold standingOf at done
  split at done
  · simp at done
  · simp at done
  next found outputs known stored =>
    obtain ⟨same, lookup, counted⟩ := consistent.stored stored
    refine ⟨same, lookup, fun channel positive within => ?_⟩
    cases channel with
    | zero => omega
    | succ index =>
        have inside : index < outputs.length := by omega
        exact ⟨outputs[index], by simp [output?, stored, List.getElem?_eq_getElem inside]⟩

/-- After any operations, whatever a clear query asked for while it was tracked is there
with all its outputs and has not failed since, exactly when no failure arrived for it
after it was finished. -/
theorem resolved_iff_upheld (held : history.Holds asked query id)
    (clear : (replay run history).isQueueClear query = true) :
    ((replay run history).Resolved id ∧ ¬history.FailedSince asked id) ↔
      ¬history.OverturnedSince asked id := by
  constructor
  · rintro ⟨_, unfailed⟩ ⟨operation, moment, cached, later, within, fails, _⟩
    exact unfailed ⟨operation, moment, later, within, fails⟩
  · intro upheld
    obtain ⟨unmarked, waitsForNothing⟩ := isQueueClear_iff.mp clear
    rcases pursued_of_holds held upheld with marked | ⟨unfailed, waits | ⟨cached, done⟩⟩
    · exact absurd marked unmarked
    · rw [waitsForNothing] at waits
      exact absurd waits List.not_mem_nil
    · have reflects := reflects_replay run history
      exact ⟨reflects.consistent.resolved ((reflects.standing id).trans done), unfailed⟩

end Resolution

section Samples

def countRun : RunId := ⟨Uuid.nil⟩

def countTicket : Ticket :=
  Ticket.create countRun
    { name := "wc", prototype := { params := [.plain "x"], outputs := ["n"] },
      lang := "bash", script := "wc -l $x > $n" } [("x", [.str "a"])]

def countAsked : History := [.request ⟨1⟩ ⟨1⟩ countTicket]

def countFinished : Reply := .finished countTicket.id [[.str "3"]] []

def countFailed : Reply :=
  .failed
    { ticket := countTicket.id
      lambda := "wc"
      script := "wc -l $x > $n"
      stdout := ""
      stderr := "boom" }

theorem standing_countAsked :
    History.standing countAsked countTicket.id = .pending countTicket := by
  simp [countAsked, History.standing, Standing.after]

theorem verdict_countFinished : History.verdict countAsked countFinished = .accepted := by
  have counted : countTicket.arity = 1 := rfl
  have same : countFinished.ticket = countTicket.id := rfl
  rw [History.verdict, same, standing_countAsked]
  simp [Standing.verdict, countFinished, counted]

theorem resolved_iff_upheld_count :
    History.Holds (.reply countFinished :: countAsked) countAsked ⟨1⟩ countTicket.id ∧
      (replay countRun (.reply countFinished :: countAsked)).isQueueClear ⟨1⟩ = true ∧
      (replay countRun (.reply countFinished :: countAsked)).Resolved countTicket.id ∧
      ¬History.FailedSince (.reply countFinished :: countAsked) countAsked countTicket.id := by
  have held :
      History.Holds (.reply countFinished :: countAsked) countAsked ⟨1⟩ countTicket.id :=
    @History.holds_of_steady ⟨1⟩ [.reply countFinished] [] ⟨1⟩ countTicket
      (by simp) (by simp)
  have clear : (replay countRun (.reply countFinished :: countAsked)).isQueueClear ⟨1⟩ =
      true := by decide +kernel
  refine ⟨held, clear, (resolved_iff_upheld held clear).mpr ?_⟩
  rintro ⟨operation, moment, cached, later, within, fails, _⟩
  rcases List.suffix_cons_iff.mp within with same | within
  · obtain ⟨rfl, rfl⟩ := List.cons.inj same
    obtain ⟨_, failure, same, _, verdict⟩ := fails
    obtain rfl := Operation.reply.inj same
    simp [verdict_countFinished] at verdict
  · exact History.not_failedSince_self ⟨operation, moment, later, within, fails⟩

theorem standing_countFinished :
    History.standing (.reply countFinished :: countAsked) countTicket.id =
      .done countTicket := by
  have named : countFinished.ticket = countTicket.id := rfl
  have accepted := verdict_countFinished
  rw [History.verdict, named, standing_countAsked] at accepted
  rw [History.standing, standing_countAsked]
  simp only [Standing.after, named, if_true, accepted]

theorem verdict_countFailed : ∃ failure,
    History.verdict (.reply countFinished :: countAsked) countFailed = .fails failure := by
  have named : countFailed.ticket = countTicket.id := rfl
  rw [History.verdict, named, standing_countFinished]
  exact ⟨_, rfl⟩

/-- The failure of a ticket that is finished already takes its outputs away, and the query
is as clear as before. -/
theorem clear_unresolved_count :
    History.Holds (.reply countFailed :: .reply countFinished :: countAsked) countAsked
      ⟨1⟩ countTicket.id ∧
      (replay countRun (.reply countFailed :: .reply countFinished :: countAsked)).isQueueClear
        ⟨1⟩ = true ∧
      ¬(replay countRun (.reply countFailed :: .reply countFinished :: countAsked)).Resolved
        countTicket.id ∧
      History.FailedSince (.reply countFailed :: .reply countFinished :: countAsked)
        countAsked countTicket.id := by
  obtain ⟨failure, verdict⟩ := verdict_countFailed
  refine ⟨@History.holds_of_steady ⟨1⟩ [.reply countFailed, .reply countFinished] []
    ⟨1⟩ countTicket (by simp) (by simp), by decide +kernel, ?_, .reply countFailed,
    .reply countFinished :: countAsked, List.suffix_cons _ _, List.suffix_rfl,
    countFailed, failure, rfl, rfl, verdict⟩
  rintro ⟨cached, found, _⟩
  have evicted : (replay countRun
      (.reply countFailed :: .reply countFinished :: countAsked)).cache.length = 0 := by
    decide +kernel
  simp [cached?, List.eq_nil_of_length_eq_zero evicted] at found

end Samples

end TicketFlow.TicketTable
