import TicketFlow.Hub
import TicketFlow.Proofs.Reduction.Requests
import TicketFlow.Proofs.Schedule.Acts
import TicketFlow.Proofs.Session.Basic

namespace TicketFlow

/-! The moves of a hub, and what a front end does to the scheduler in one of them.

A front end acts on its own business only: it asks for tickets of the queries
that it runs, releases those that it runs no more, and leaves when it stops.
-/

namespace Query

variable {query : Query} {depth : Nat} {scheduler : Scheduler}

/-- A step keeps whose query it is, and asks the scheduler for tickets of the query
only, and for outputs. -/
theorem serves_step (query : Query) (depth : Nat) (scheduler : Scheduler) :
    (query.step depth scheduler).query.id = query.id ∧
      (query.step depth scheduler).query.consumer = query.consumer ∧
      Relation.ReflTransGen (TicketSource.Serves query.consumer query.id) scheduler
        (query.step depth scheduler).scheduler := by
  let holds (later : Query) (source : Scheduler) : Prop :=
    later.id = query.id ∧ later.consumer = query.consumer ∧
      Relation.ReflTransGen (TicketSource.Serves query.consumer query.id) scheduler source
  have passed {later : Query} {source : Scheduler} (given : holds later source) :
      holds (later.pass depth source).2.1 (later.pass depth source).2.2 := by
    obtain ⟨id, consumer, served⟩ := given
    refine ⟨id, consumer, served.trans ?_⟩
    rw [← id, ← consumer]
    exact later.context.serves_reduce depth source later.consumer later.id
  have begins : holds query scheduler := ⟨rfl, rfl, .refl⟩
  exact step_keeps passed begins

theorem step_of_failed (failed : scheduler.isFailed query.id = true) :
    query.step depth scheduler = { outcome := .ok .failed, query, scheduler } := by
  simp [step, failed]

end Query

namespace FrontEnd

variable {frontEnd after : FrontEnd} {scheduler : Scheduler} {depth : Nat} {query : Query}
  {id : QueryId} {own : QueryId → Prop}

/-- What a front end does to the scheduler for its own queries on its way to `after`,
except for reading its mailbox. -/
def Does (frontEnd after : FrontEnd) (own : QueryId → Prop) (scheduler : Scheduler) :
    Scheduler.Act → Prop
  | .request consumer query _ =>
      consumer = frontEnd.consumer ∧ own query ∧ query ∉ scheduler.table.failed
  | .release consumer query =>
      consumer = frontEnd.consumer ∧ own query ∧ after.runs query = false
  | .abandon mailbox => mailbox = frontEnd.mailbox ∧ after.isRunning = false
  | .detach consumer => consumer = frontEnd.consumer ∧ after.isRunning = false
  | .attach _ | .take _ => False

section Frame

theorem runs_of_get? (held : frontEnd.queries.get? id = some query) :
    frontEnd.runs id = true := by
  simp [runs, OrderedMap.contains, held]

@[simp] theorem queries_tell {notice : Notice} :
    (frontEnd.tell id notice).queries = frontEnd.queries := by
  unfold tell
  split <;> rfl

@[simp] theorem consumer_tell {notice : Notice} :
    (frontEnd.tell id notice).consumer = frontEnd.consumer := by
  unfold tell
  split <;> rfl

@[simp] theorem mailbox_tell {notice : Notice} :
    (frontEnd.tell id notice).mailbox = frontEnd.mailbox := by
  unfold tell
  split <;> rfl

@[simp] theorem isRunning_tell {notice : Notice} :
    (frontEnd.tell id notice).isRunning = frontEnd.isRunning := by
  unfold tell
  split <;> rfl

@[simp] theorem isHeard_tell {notice : Notice} :
    (frontEnd.tell id notice).isHeard = frontEnd.isHeard := by
  unfold tell
  split <;> rfl

theorem queries_conclude {notice : Notice} :
    (frontEnd.conclude scheduler id notice).1.queries = frontEnd.queries.erase id := by
  rw [conclude, queries_tell]
  rfl

theorem runs_tell {notice : Notice} {other : QueryId} :
    (frontEnd.tell id notice).runs other = frontEnd.runs other := by
  rw [runs, queries_tell, ← runs]

end Frame

section Step

/-- The front end with the query as its step has left it. -/
def updated (frontEnd : FrontEnd) (depth : Nat) (scheduler : Scheduler)
    (query : Query) : FrontEnd :=
  { frontEnd with
    queries := frontEnd.queries.insert query.id (query.step depth scheduler).query }

/-- A step leaves the query running, concludes it, or ends the front end. -/
theorem step_cases (frontEnd : FrontEnd) (depth : Nat)
    (scheduler : Scheduler) (query : Query) :
    ((∃ progress, (query.step depth scheduler).outcome = .ok progress ∧
      ∀ result, progress ≠ .finished result) ∧
        frontEnd.step depth scheduler query =
          (frontEnd.updated depth scheduler query, (query.step depth scheduler).scheduler)) ∨
      (∃ notice, scheduler.isFailed query.id = false ∧ notice.isTerminal = true ∧
        frontEnd.step depth scheduler query =
          (frontEnd.updated depth scheduler query).conclude
            (query.step depth scheduler).scheduler query.id notice) ∨
      (∃ reason, (query.step depth scheduler).outcome = .error reason ∧
        (∀ error, reason ≠ .rejected error) ∧ frontEnd.step depth scheduler query =
          (frontEnd.updated depth scheduler query).crash
            (query.step depth scheduler).scheduler) := by
  have unfailed {outcome : Except Halt Progress}
      (ended : (query.step depth scheduler).outcome = outcome)
      (other : outcome ≠ .ok .failed) : scheduler.isFailed query.id = false := by
    by_contra fails
    rw [Query.step_of_failed (by simpa using fails)] at ended
    exact other ended.symm
  cases outcome : (query.step depth scheduler).outcome with
  | ok progress =>
      cases progress with
      | finished result =>
          exact .inr (.inl ⟨.queryFinished result, unfailed outcome (by simp), rfl,
            by simp [step, outcome, updated]⟩)
      | pending soFar =>
          exact .inl ⟨⟨.pending soFar, rfl, by simp⟩, by simp [step, outcome, updated]⟩
      | failed => exact .inl ⟨⟨.failed, rfl, by simp⟩, by simp [step, outcome, updated]⟩
  | error reason =>
      cases reason with
      | rejected error =>
          exact .inr (.inl ⟨.queryRejected error, unfailed outcome (by simp), rfl,
            by simp [step, outcome, updated]⟩)
      | fault fault =>
          exact .inr (.inr ⟨.fault fault, rfl, by simp, by simp [step, outcome, updated]⟩)
      | exhausted =>
          exact .inr (.inr ⟨.exhausted, rfl, by simp, by simp [step, outcome, updated]⟩)

/-- An event about a query that is not run counts for nothing.  Otherwise it is told, and
a query that is clear is stepped; or it concludes its query. -/
theorem handle_cases (frontEnd : FrontEnd) (depth : Nat)
    (scheduler : Scheduler) (event : QueryEvent) :
    (frontEnd.runs event.query = false ∧
      frontEnd.handle depth scheduler event = (frontEnd, scheduler)) ∨
      (∃ ticket report query, event = .ticketFinished event.query ticket report ∧
        frontEnd.queries.get? event.query = some query ∧
        frontEnd.handle depth scheduler event =
          if scheduler.isQueueClear event.query then
            (frontEnd.tell event.query (.ticketFinished ticket report)).step
              depth scheduler query
          else (frontEnd.tell event.query (.ticketFinished ticket report), scheduler)) ∨
      (∃ failure, event = .queryFailed event.query failure ∧
        frontEnd.runs event.query = true ∧ frontEnd.handle depth scheduler event =
        frontEnd.conclude scheduler event.query (.queryFailed failure)) := by
  cases event with
  | ticketFinished id ticket report =>
      cases found : frontEnd.queries.get? id with
      | none =>
          exact .inl ⟨by simp [QueryEvent.query, runs, OrderedMap.contains, found],
            by simp [handle, found]⟩
      | some query =>
          exact .inr
            (.inl ⟨ticket, report, query, rfl, found, by simp only [handle, found]; rfl⟩)
  | queryFailed id failure =>
      cases runs : frontEnd.runs id with
      | false => exact .inl ⟨runs, by simp [handle, runs]⟩
      | true =>
          exact .inr (.inr ⟨failure, rfl, runs, by simp [handle, runs, QueryEvent.query]⟩)

end Step

section Acts

theorem does_tell {notice : Notice} :
    (frontEnd.tell id notice).Does after own = frontEnd.Does after own := by
  funext scheduler act
  cases act <;> simp [Does]

/-- A query is stepped by requests for it, and by none if it has failed. -/
theorem leads_stepped (same : query.consumer = frontEnd.consumer) (owned : own query.id) :
    Scheduler.Leads (frontEnd.Does after own) scheduler
      (query.step depth scheduler).scheduler := by
  cases fails : scheduler.isFailed query.id with
  | true =>
      rw [Query.step_of_failed fails]
      exact .refl
  | false =>
      have unfailed : query.id ∉ scheduler.table.failed := by
        simpa [Scheduler.isFailed, TicketTable.isFailed] using fails
      refine (Scheduler.leads_of_served (query.serves_step depth scheduler).2.2
        fun other apply unchanged => ?_).1
      exact ⟨same, owned, unchanged ▸ unfailed⟩

theorem runs_concluded (frontEnd : FrontEnd) (scheduler : Scheduler)
    (id : QueryId) (notice : Notice) (other : QueryId) :
    (frontEnd.conclude scheduler id notice).1.runs other =
      (frontEnd.runs other && other != id) := by
  rw [runs, queries_conclude, OrderedMap.contains, OrderedMap.get?_erase]
  by_cases same : id = other
  · subst same
    simp
  · simp [same, Ne.symm same, runs, OrderedMap.contains]

theorem leads_step (same : query.consumer = frontEnd.consumer) (owned : own query.id) :
    Scheduler.Leads (frontEnd.Does (frontEnd.step depth scheduler query).1 own) scheduler
      (frontEnd.step depth scheduler query).2 := by
  have stepped {after : FrontEnd} : Scheduler.Leads (frontEnd.Does after own) scheduler
      (query.step depth scheduler).scheduler := leads_stepped same owned
  rcases frontEnd.step_cases depth scheduler query with
      ⟨_, ends⟩ | ⟨notice, _, _, ends⟩ | ⟨_, _, _, ends⟩ <;> rw [ends]
  · exact stepped
  · refine stepped.trans (@Scheduler.leads_act _ _ (.release frontEnd.consumer query.id) ?_)
    exact ⟨rfl, owned, by simp [runs_concluded]⟩
  · refine stepped.trans (@Scheduler.leads_act _ _ (.abandon frontEnd.mailbox) ?_)
    exact ⟨rfl, rfl⟩

/-- The queries of a front end stand under their ids, and belong to its consumer. -/
def Keyed (frontEnd : FrontEnd) : Prop :=
  ∀ {id query}, frontEnd.queries.get? id = some query →
    query.id = id ∧ query.consumer = frontEnd.consumer

theorem leads_handle {event : QueryEvent} (keyed : frontEnd.Keyed) :
    Scheduler.Leads (frontEnd.Does (frontEnd.handle depth scheduler event).1 fun id =>
      frontEnd.runs id = true) scheduler (frontEnd.handle depth scheduler event).2 := by
  rcases frontEnd.handle_cases depth scheduler event with
    ⟨_, same⟩ | ⟨ticket, report, query, _, found, same⟩ | ⟨failure, _, runs, same⟩
  · rw [same]
    exact .refl
  · obtain ⟨named, own⟩ := keyed found
    rw [same]
    split
    · rw [← @does_tell frontEnd _ event.query _ (.ticketFinished ticket report)]
      refine leads_step (by simpa using own) ?_
      rw [named]
      exact runs_of_get? found
    · exact .refl
  · rw [same]
    refine @Scheduler.leads_act _ _ (.release frontEnd.consumer event.query) ⟨rfl, runs, ?_⟩
    simp [runs_concluded]

theorem leads_stop :
    Scheduler.Leads (frontEnd.Does (frontEnd.stop scheduler).1 own) scheduler
      (frontEnd.stop scheduler).2 := by
  have abandons : Scheduler.Leads (frontEnd.Does (frontEnd.stop scheduler).1 own)
      scheduler (scheduler.abandon frontEnd.mailbox) :=
    @Scheduler.leads_act _ _ (.abandon frontEnd.mailbox) ⟨rfl, rfl⟩
  exact abandons.trans (@Scheduler.leads_act _ _ (.detach frontEnd.consumer) ⟨rfl, rfl⟩)

end Acts

end FrontEnd

namespace Hub

inductive Move where
  | spawn (consumer : ConsumerId)
  /-- Any id will do that no query has had. -/
  | submit (index : Nat) (id : QueryId) (context : Context)
  /-- The front end takes its next event, or stops for want of a mailbox. -/
  | advance (index : Nat)
  | shutdown (index : Nat)
  | closeNotices (index : Nat)
  /-- The backend takes the first ticket that is ready. -/
  | take
  | reply (reply : Reply)

/-- A move that cannot be made changes nothing. -/
def play (hub : Hub) : Move → Hub
  | .spawn consumer => hub.spawn consumer
  | .submit index id context =>
      if id ∈ hub.issued then hub else (hub.submitAs index id context).2
  | .advance index => (hub.advance? index).getD hub
  | .shutdown index => (hub.shutdown index).2
  | .closeNotices index => hub.closeNotices index
  | .take =>
      { hub with scheduler := { hub.scheduler with ready := hub.scheduler.ready.tail } }
  | .reply reply => hub.reply reply

/-- The hubs that any moves lead to. -/
inductive Reaches (start : Hub) : Hub → Prop where
  | start : Reaches start start
  | play {hub : Hub} {move : Move} : Reaches start hub → Reaches start (hub.play move)

theorem Reaches.trans {first second third : Hub} (left : first.Reaches second)
    (right : second.Reaches third) : first.Reaches third := by
  induction right with
  | start => exact left
  | play _ ih => exact ih.play

/-- Scheduler, front ends and query ids after one move; whose turn it is does not matter. -/
inductive Played (hub : Hub) (move : Move) (after : Hub) : Prop where
  | nothing (scheduler : after.scheduler = hub.scheduler)
      (frontEnds : after.frontEnds = hub.frontEnds) (issues : after.issued = hub.issued)
  | spawned {consumer : ConsumerId}
      (scheduler : after.scheduler = (hub.scheduler.attach consumer).2)
      (frontEnds : after.frontEnds =
      hub.frontEnds ++ [{ consumer, mailbox := (hub.scheduler.attach consumer).1 }])
      (issues : after.issued = hub.issued)
  | submitted {index : Nat} {frontEnd : FrontEnd} {id : QueryId} {context : Context}
      (is : move = .submit index id context) (fresh : id ∉ hub.issued)
      (running : hub.running? index = some frontEnd)
      (scheduler : after.scheduler = (frontEnd.submit hub.depth hub.scheduler id context).2)
      (frontEnds : after.frontEnds =
        hub.frontEnds.set index (frontEnd.submit hub.depth hub.scheduler id context).1)
      (issues : after.issued = id :: hub.issued)
  | handled {index : Nat} {frontEnd : FrontEnd} {event : QueryEvent} {source : Scheduler}
      (is : move = .advance index) (running : hub.running? index = some frontEnd)
      (taken : hub.scheduler.takeEvent? frontEnd.mailbox = some (event, source))
      (scheduler : after.scheduler = (frontEnd.handle hub.depth source event).2)
      (frontEnds : after.frontEnds = hub.frontEnds.set index
        (frontEnd.handle hub.depth source event).1) (issues : after.issued = hub.issued)
  | stopped {index : Nat} {frontEnd : FrontEnd}
      (cause : move = .shutdown index ∨ hub.scheduler.isClosed frontEnd.mailbox = true)
      (running : hub.running? index = some frontEnd)
      (scheduler : after.scheduler = (frontEnd.stop hub.scheduler).2)
      (frontEnds : after.frontEnds = hub.frontEnds.set index (frontEnd.stop hub.scheduler).1)
      (issues : after.issued = hub.issued)
  | unheard {index : Nat} (is : move = .closeNotices index)
      (scheduler : after.scheduler = hub.scheduler)
      (frontEnds : after.frontEnds =
      hub.frontEnds.modify index fun frontEnd => { frontEnd with isHeard := false })
      (issues : after.issued = hub.issued)
  | took (is : move = .take)
      (scheduler : after.scheduler = { hub.scheduler with ready := hub.scheduler.ready.tail })
      (frontEnds : after.frontEnds = hub.frontEnds) (issues : after.issued = hub.issued)
  | replied {reply : Reply} (is : move = .reply reply)
      (scheduler : after.scheduler = hub.scheduler.reply reply)
      (frontEnds : after.frontEnds = hub.frontEnds) (issues : after.issued = hub.issued)

variable {hub : Hub}

theorem frame_reply (hub : Hub) (reply : Reply) :
    (hub.reply reply).frontEnds = hub.frontEnds ∧ (hub.reply reply).issued = hub.issued ∧
      (hub.reply reply).depth = hub.depth := by
  have delivered (deliveries : Deliveries) (hub : Hub) :
      (deliveries.foldl deliver hub).frontEnds = hub.frontEnds ∧
        (deliveries.foldl deliver hub).issued = hub.issued ∧
        (deliveries.foldl deliver hub).depth = hub.depth := by
    induction deliveries generalizing hub with
    | nil => exact ⟨rfl, rfl, rfl⟩
    | cons delivery rest ih => exact ih (hub.deliver delivery)
  exact delivered _ _

theorem played (hub : Hub) (move : Move) : Played hub move (hub.play move) := by
  cases move with
  | spawn consumer => exact .spawned rfl rfl rfl
  | submit index id context =>
      by_cases used : id ∈ hub.issued
      · have same : hub.play (.submit index id context) = hub := by simp [play, used]
        rw [same]
        exact .nothing rfl rfl rfl
      cases running : hub.running? index with
      | none =>
          have same : hub.play (.submit index id context) = hub := by
            simp [play, submitAs, used, running]
          rw [same]
          exact .nothing rfl rfl rfl
      | some frontEnd =>
          have same : hub.play (.submit index id context) =
              { hub.after index (frontEnd.submit hub.depth hub.scheduler id context) with
                issued := id :: hub.issued } := by simp [play, submitAs, used, running]
          rw [same]
          exact .submitted rfl used running rfl rfl rfl
  | advance index =>
      cases running : hub.running? index with
      | none =>
          have same : hub.play (.advance index) = hub := by simp [play, advance?, running]
          rw [same]
          exact .nothing rfl rfl rfl
      | some frontEnd =>
          cases taken : hub.scheduler.takeEvent? frontEnd.mailbox with
          | none =>
              cases closed : hub.scheduler.isClosed frontEnd.mailbox with
              | true =>
                  have same : hub.play (.advance index) =
                      hub.after index (frontEnd.stop hub.scheduler) := by
                    simp [play, advance?, running, taken, closed]
                  rw [same]
                  exact .stopped (.inr closed) running rfl rfl rfl
              | false =>
                  have same : hub.play (.advance index) = hub := by
                    simp [play, advance?, running, taken, closed]
                  rw [same]
                  exact .nothing rfl rfl rfl
          | some found =>
              have same : hub.play (.advance index) =
                  hub.after index (frontEnd.handle hub.depth found.2 found.1) := by
                simp [play, advance?, running, taken]
              rw [same]
              exact .handled rfl running taken rfl rfl rfl
  | shutdown index =>
      cases running : hub.running? index with
      | none =>
          have same : hub.play (.shutdown index) = hub := by
            simp [play, shutdown, running]
          rw [same]
          exact .nothing rfl rfl rfl
      | some frontEnd =>
          have same : hub.play (.shutdown index) =
              hub.after index (frontEnd.stop hub.scheduler) := by
            simp [play, shutdown, running]
          rw [same]
          exact .stopped (.inl rfl) running rfl rfl rfl
  | closeNotices index => exact .unheard rfl rfl rfl rfl
  | take => exact .took rfl rfl rfl rfl
  | reply reply =>
      exact .replied rfl (hub.scheduler_reply reply) (hub.frame_reply reply).1
        (hub.frame_reply reply).2.1

end Hub

end TicketFlow
