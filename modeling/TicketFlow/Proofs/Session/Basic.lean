import TicketFlow.Proofs.Schedule.Scheduler
import TicketFlow.Query

namespace TicketFlow

/-! A query on its way to a result.

The query is stepped again and again, within any depth.  Between its steps
tickets are completed, and other queries ask for tickets of their own.
-/

namespace Query

variable {query : Query} {scheduler : Scheduler} {depth : Nat}

/-- The query and the scheduler that a pass leaves are what `settle` goes on with. -/
theorem settle_frame (query : Query) (depth : Nat) (scheduler : Scheduler) :
    (query.settle depth scheduler).query = (query.pass depth scheduler).2.1 ∧
      (query.settle depth scheduler).scheduler = (query.pass depth scheduler).2.2 := by
  unfold settle
  split
  next passed => rw [passed]; exact ⟨rfl, rfl⟩
  next passed =>
    rw [passed]
    split <;> exact ⟨rfl, rfl⟩

/-- Whatever a pass keeps holds before the last pass of a step too. -/
theorem step_cases {holds : Query → Scheduler → Prop}
    (passed : ∀ {query scheduler}, holds query scheduler →
      holds (query.pass depth scheduler).2.1 (query.pass depth scheduler).2.2)
    (before : holds query scheduler) :
    (scheduler.isFailed query.id = true ∧ query.step depth scheduler =
      { outcome := .ok .failed, query, scheduler }) ∨ ∃ last source, holds last source ∧
      query.step depth scheduler = last.settle depth source := by
  have after := passed before
  unfold step
  split
  next fails => exact .inl ⟨fails, rfl⟩
  next =>
    right
    cases outcome : query.pass depth scheduler with
    | mk result left =>
        obtain ⟨between, source⟩ := left
        rw [outcome] at after
        cases result with
        | error reason => exact ⟨query, scheduler, before, by simp [settle, outcome]⟩
        | ok result =>
            cases clear : source.isQueueClear between.id with
            | false => exact ⟨query, scheduler, before, by simp [settle, outcome, clear]⟩
            | true =>
                cases holding : between.context.arena.holdsPlaceholder result with
                | true => exact ⟨between, source, after, by simp [clear, holding]⟩
                | false =>
                    exact ⟨query, scheduler, before, by simp [settle, outcome, clear, holding]⟩

theorem step_keeps {holds : Query → Scheduler → Prop}
    (passed : ∀ {query scheduler}, holds query scheduler →
      holds (query.pass depth scheduler).2.1 (query.pass depth scheduler).2.2)
    (before : holds query scheduler) :
    holds (query.step depth scheduler).query (query.step depth scheduler).scheduler := by
  obtain ⟨_, same⟩ | ⟨last, source, reached, same⟩ := step_cases passed before
  · rw [same]
    exact before
  · rw [same, (last.settle_frame depth source).1, (last.settle_frame depth source).2]
    exact passed reached

theorem settle_ok {progress : Progress}
    (settled : (query.settle depth scheduler).outcome = .ok progress) :
    ∃ result, (query.pass depth scheduler).1 = .ok result ∧
      progress =
        if (query.pass depth scheduler).2.2.isQueueClear (query.pass depth scheduler).2.1.id &&
          !(query.pass depth scheduler).2.1.context.arena.holdsPlaceholder result then
          .finished result
        else if (query.pass depth scheduler).2.2.isFailed
          (query.pass depth scheduler).2.1.id then .failed
        else .pending result := by
  unfold settle at settled
  split at settled
  · simp at settled
  next result left source passed =>
    rw [passed]
    refine ⟨result, rfl, ?_⟩
    split at settled
    next ends =>
      rw [if_pos ends]
      exact (Except.ok.inj settled).symm
    next goesOn =>
      rw [if_neg goesOn]
      exact (Except.ok.inj settled).symm

theorem settle_error {reason : Halt}
    (settled : (query.settle depth scheduler).outcome = .error reason) :
    (query.pass depth scheduler).1 = .error reason := by
  unfold settle at settled
  split at settled
  next passed =>
    rw [passed]
    exact congrArg Except.error (Except.error.inj settled)
  next => split at settled <;> cases settled

/-- A query is finished by a pass whose result has no placeholder, and when
it waits for nothing. -/
theorem settle_finished {result : Compound}
    (settled : (query.settle depth scheduler).outcome = .ok (.finished result)) :
    (query.pass depth scheduler).1 = .ok result ∧
      (query.pass depth scheduler).2.2.isQueueClear (query.pass depth scheduler).2.1.id =
        true ∧
      (query.pass depth scheduler).2.1.context.arena.holdsPlaceholder result = false := by
  obtain ⟨found, passed, progress⟩ := settle_ok settled
  split at progress
  next ends =>
    obtain rfl := Progress.finished.inj progress
    simp only [Bool.and_eq_true, Bool.not_eq_true'] at ends
    exact ⟨passed, ends⟩
  next => split at progress <;> simp at progress

end Query

structure Session where
  query : Query
  scheduler : Scheduler

namespace Session

/-- A new query over a context, for a consumer that has just been attached. -/
def begin (run : RunId) (consumer : ConsumerId) (id : QueryId)
    (context : Context) : Session where
  query := { id, consumer, context }
  scheduler := ((Scheduler.start run).attach consumer).2

inductive Move where
  | step (depth : Nat)
  | complete (ticket : TicketId) (outputs : List (List String))
      (report : List ReportEntry)
  | ask (consumer : ConsumerId) (query : QueryId) (apply : Apply)

def play (session : Session) : Move → Session
  | .step depth =>
      let stepped := session.query.step depth session.scheduler
      { query := stepped.query, scheduler := stepped.scheduler }
  | .complete ticket outputs report =>
      { session with
        scheduler := session.scheduler.reply
          (.finished ticket (outputs.map Compound.strs) report) }
  | .ask consumer query apply =>
      match session.scheduler.request consumer query apply with
      | .ok (_, scheduler) => { session with scheduler }
      | .error _ => session

/-- A request that is refused changes nothing. -/
theorem play_ask (session : Session) (consumer : ConsumerId) (query : QueryId)
    (apply : Apply) : session.play (.ask consumer query apply) = session ∨
      ∃ placeholder scheduler,
        session.scheduler.request consumer query apply = .ok (placeholder, scheduler) ∧
        session.play (.ask consumer query apply) = { session with scheduler } := by
  cases requested : session.scheduler.request consumer query apply with
  | error fault => exact .inl (by simp [play, requested])
  | ok granted => exact .inr ⟨granted.1, granted.2, rfl, by simp [play, requested]⟩

theorem id_play (session : Session) (move : Move) :
    (session.play move).query.id = session.query.id := by
  cases move with
  | step depth =>
      have kept : ∀ {query : Query} {scheduler : Scheduler}, query.id = session.query.id →
          (query.pass depth scheduler).2.1.id = session.query.id := id
      exact Query.step_keeps (@kept) rfl
  | complete ticket outputs report => rfl
  | ask consumer query apply =>
      obtain same | ⟨placeholder, scheduler, _, same⟩ :=
          session.play_ask consumer query apply <;> rw [same]

/-- Tickets are completed with as many outputs as they have, among those allowed; nobody
else asks for tickets in the name of the query. -/
def Fair (allowed : TicketId → List (List String) → Prop)
    (session : Session) : Move → Prop
  | .step _ => True
  | .complete ticket outputs _ =>
      allowed ticket outputs ∧
        ∀ cached, session.scheduler.table.cached? ticket = some cached →
          outputs.length = cached.arity
  | .ask _ query _ => query ≠ session.query.id

/-- The sessions that fair moves lead to. -/
inductive Reaches (allowed : TicketId → List (List String) → Prop) (start : Session) :
    Session → Prop where
  | start : Reaches allowed start start
  | play {session : Session} {move : Move} :
      Reaches allowed start session → Fair allowed session move →
      Reaches allowed start (session.play move)

/-- What every fair move keeps holds of all sessions reached. -/
theorem Reaches.invariant {allowed : TicketId → List (List String) → Prop}
    {start session : Session} {holds : Session → Prop}
    (reaches : Reaches allowed start session)
    (kept : ∀ {session move}, holds session → Fair allowed session move →
      holds (session.play move)) (begins : holds start) : holds session := by
  induction reaches with
  | start => exact begins
  | play _ fair ih => exact kept ih fair

end Session

end TicketFlow
