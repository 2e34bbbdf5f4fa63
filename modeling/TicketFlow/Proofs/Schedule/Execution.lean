import Mathlib.Data.List.Perm.Basic
import TicketFlow.Proofs.Schedule.Scheduler

namespace TicketFlow

/-! Every ticket is executed by one execution at a time.

The scheduler is watched together with what is out of its hands: the tickets
being executed and the replies under way.  An execution ends in one reply for
its ticket, replies arrive in any order, and consumers come, ask and go in
between.  What is ready, executed or answered is then exactly what the table
has without results.
-/

/-- The ticket is cached, and nothing is stored for it. -/
def TicketTable.isPending (table : TicketTable) (id : TicketId) : Bool :=
  table.cache.contains id && !table.results.contains id

namespace Scheduler

/-- What consumers do to a scheduler. -/
inductive Act where
  | attach (consumer : ConsumerId)
  | detach (consumer : ConsumerId)
  | abandon (mailbox : MailboxId)
  | take (mailbox : MailboxId)
  | request (consumer : ConsumerId) (query : QueryId) (apply : Apply)
  | release (consumer : ConsumerId) (query : QueryId)

/-- A request that is refused changes nothing, and neither does looking
into an empty mailbox. -/
def act (scheduler : Scheduler) : Act → Scheduler
  | .attach consumer => (scheduler.attach consumer).2
  | .detach consumer => scheduler.detach consumer
  | .abandon mailbox => scheduler.abandon mailbox
  | .take mailbox =>
      match scheduler.takeEvent? mailbox with
      | some (_, after) => after
      | none => scheduler
  | .request consumer query apply =>
      match scheduler.request consumer query apply with
      | .ok (_, after) => after
      | .error _ => scheduler
  | .release consumer query => scheduler.release consumer query

end Scheduler

/-- A scheduler, the tickets being executed for it and the replies under way to it. -/
structure Engine where
  scheduler : Scheduler
  executing : List Ticket := []
  replies : List Reply := []

namespace Engine

inductive Move where
  | act (act : Scheduler.Act)
  /-- The first ticket that is ready is executed from now on. -/
  | execute
  /-- The execution at this place ends in a reply. -/
  | answer (place : Nat) (reply : Reply)
  /-- The reply at this place reaches the scheduler. -/
  | apply (place : Nat)

def start (run : RunId) : Engine where
  scheduler := Scheduler.start run

def after (engine : Engine) : Move → Engine
  | .act act => { engine with scheduler := engine.scheduler.act act }
  | .execute =>
      match engine.scheduler.ready with
      | [] => engine
      | dispatch :: ready =>
          { engine with
            scheduler := { engine.scheduler with ready }
            executing := engine.executing ++ [dispatch.ticket] }
  | .answer place reply =>
      { engine with
        executing := engine.executing.eraseIdx place,
        replies := engine.replies ++ [reply] }
  | .apply place =>
      match engine.replies[place]? with
      | none => engine
      | some reply =>
          { engine with
            scheduler := engine.scheduler.reply reply,
            replies := engine.replies.eraseIdx place }

/-- An execution answers for its own ticket, in one of the allowed ways. -/
def Permits (allowed : Ticket → Reply → Prop) (engine : Engine) : Move → Prop
  | .answer place reply =>
      ∃ ticket, engine.executing[place]? = some ticket ∧ reply.ticket = ticket.id ∧
        allowed ticket reply
  | _ => True

/-- The moves made so far, the latest first, each with the engine it was made on. -/
abbrev Trace := List (Engine × Move)

inductive Run (allowed : Ticket → Reply → Prop) (start : Engine) :
    Trace → Engine → Prop where
  | start : Run allowed start [] start
  | move {trace : Trace} {engine : Engine} {move : Move} :
      Run allowed start trace engine → engine.Permits allowed move →
      Run allowed start ((engine, move) :: trace) (engine.after move)

/-- The addresses of the tickets that are ready, being executed or answered. -/
def inFlight (engine : Engine) : List TicketId :=
  engine.scheduler.ready.map (fun dispatch => dispatch.ticket.id) ++
    engine.executing.map Ticket.id ++ engine.replies.map Reply.ticket

/-- The move makes the ticket ready for execution. -/
def Dispatches (moved : Engine × Move) (id : TicketId) : Prop :=
  ∃ dispatch, (moved.1.after moved.2).scheduler.ready =
    moved.1.scheduler.ready ++ [dispatch] ∧ dispatch.ticket.id = id

/-- The move lets a reply reach the scheduler that fails the ticket. -/
def Fails (moved : Engine × Move) (id : TicketId) : Prop :=
  ∃ place reply failure, moved.2 = .apply place ∧
    moved.1.replies[place]? = some reply ∧ reply.ticket = id ∧
    (moved.1.scheduler.table.standingOf id).verdict reply = .fails failure

/-- One execution at a time for each ticket, none in vain, and no result lost. -/
structure Disciplined (allowed : Ticket → Reply → Prop) (trace : Trace)
    (engine : Engine) : Prop where
  load :
    ∀ id, engine.inFlight.count id = if engine.scheduler.table.isPending id then 1 else 0
  alone : ∀ id, (engine.executing.map Ticket.id).count id ≤ 1
  repeated :
    ∀ {newer middle older : Trace} {first second : Engine × Move}
    {id : TicketId}, trace = newer ++ second :: (middle ++ first :: older) →
    Dispatches first id → Dispatches second id →
    ∃ moved, moved ∈ middle ∧ Fails moved id
  heeded :
    ∀ reply ∈ engine.replies,
    ∃ cached, engine.scheduler.table.standingOf reply.ticket = .pending cached ∧
    (engine.scheduler.table.standingOf reply.ticket).verdict reply ≠ .ignored
  stored :
    ∀ {later : Engine} {next : Trace} {id : TicketId}
    {outputs : List Compound}, Run allowed engine next later →
    engine.scheduler.table.results.get? id = some outputs →
    later.scheduler.table.results.get? id = some outputs

end Engine

namespace TicketTable

variable {table : TicketTable} {id : TicketId} {reply : Reply}

theorem isPending_iff :
    table.isPending id = true ↔ ∃ cached, table.standingOf id = .pending cached := by
  unfold isPending standingOf OrderedMap.contains
  cases table.cache.get? id <;> cases table.results.get? id <;> simp

/-- A reply for a pending ticket does not count for nothing. -/
theorem verdict_ne_ignored (pending : table.isPending reply.ticket = true) :
    (table.standingOf reply.ticket).verdict reply ≠ .ignored := by
  obtain ⟨cached, standing⟩ := isPending_iff.mp pending
  rw [standing]
  cases reply with
  | finished ticket outputs report =>
      by_cases counted : outputs.length = cached.arity <;>
        simp [Standing.verdict, counted]
  | failed failure => simp [Standing.verdict]

/-- A request makes its ticket pending if that is unknown, and nothing else. -/
theorem Consistent.isPending_request (consistent : table.Consistent)
    (consumer : ConsumerId) (query : QueryId) (ticket : Ticket) :
    (table.request consumer query ticket).2.isPending id = true ↔
      table.isPending id = true ∨ (ticket.id = id ∧ table.cache.get? id = none) := by
  rw [isPending_iff, isPending_iff, consistent.standingOf_request,
    ← standingOf_eq_unknown_iff]
  cases table.standingOf id with
  | unknown => by_cases same : ticket.id = id <;> simp [Standing.after, same]
  | pending cached => simp [Standing.after]
  | done cached => simp [Standing.after]

/-- Once a reply for it came, a ticket is not pending. -/
theorem isPending_reply :
    (table.reply reply).2.isPending id = true ↔
      table.isPending id = true ∧ reply.ticket ≠ id := by
  rw [isPending_iff, isPending_iff, standingOf_reply]
  by_cases same : reply.ticket = id
  · simp only [Standing.after, same, if_true, ne_eq, not_true, and_false,
      iff_false, not_exists]
    intro cached
    cases standing : table.standingOf id with
    | unknown => cases verdict : Standing.unknown.verdict reply <;> simp
    | pending before =>
        cases reply with
        | finished ticket outputs report =>
            by_cases counted : outputs.length = before.arity <;>
              simp [Standing.verdict, counted]
        | failed failure => simp [Standing.verdict]
    | done before => cases verdict : (Standing.done before).verdict reply <;> simp
  · simp [Standing.after, same]

/-- A reply concerns its own ticket alone. -/
theorem get?_reply_of_ne (apart : reply.ticket ≠ id) :
    (table.reply reply).2.cache.get? id = table.cache.get? id ∧
      (table.reply reply).2.results.get? id = table.results.get? id := by
  cases verdict : (table.standingOf reply.ticket).verdict reply with
  | ignored => simp [reply_ignored verdict]
  | accepted =>
      obtain ⟨_, _, _, _, _, _, _, answer⟩ := reply_accepted verdict
      rw [answer]
      exact ⟨rfl, OrderedMap.get?_insert_of_ne apart⟩
  | fails failure =>
      rw [reply_fails verdict, afterFailure_frame.1, afterFailure_frame.2.1]
      exact ⟨OrderedMap.get?_erase_of_ne apart, OrderedMap.get?_erase_of_ne apart⟩

/-- A ticket that no reply fails stays cached. -/
theorem cached_reply (cached : table.cache.get? id ≠ none)
    (upheld : ¬(reply.ticket = id ∧
      ∃ failure, (table.standingOf id).verdict reply = .fails failure)) :
    (table.reply reply).2.cache.get? id ≠ none := by
  by_cases same : reply.ticket = id
  · subst same
    cases verdict : (table.standingOf reply.ticket).verdict reply with
    | ignored => simpa [reply_ignored verdict] using cached
    | accepted =>
        obtain ⟨_, _, _, _, _, _, _, answer⟩ := reply_accepted verdict
        rw [answer]
        exact cached
    | fails failure => exact absurd ⟨rfl, failure, verdict⟩ upheld
  · rw [(get?_reply_of_ne same).1]
    exact cached

end TicketTable

namespace Scheduler

variable {scheduler before after : Scheduler} {consumer : ConsumerId} {query : QueryId}

/-- No ticket comes, goes or is made ready. -/
structure Untouched (before after : Scheduler) : Prop where
  cache : after.table.cache = before.table.cache
  results : after.table.results = before.table.results
  run : after.run = before.run
  ready : after.ready = before.ready
  up : after.isBackendUp = before.isBackendUp

theorem Untouched.refl (scheduler : Scheduler) : Untouched scheduler scheduler :=
  ⟨rfl, rfl, rfl, rfl, rfl⟩

theorem Untouched.trans {last : Scheduler} (first : Untouched before after)
    (second : Untouched after last) : Untouched before last :=
  ⟨second.cache.trans first.cache, second.results.trans first.results,
    second.run.trans first.run, second.ready.trans first.ready, second.up.trans first.up⟩

theorem Untouched.isPending (untouched : Untouched before after) (id : TicketId) :
    after.table.isPending id = before.table.isPending id := by
  rw [TicketTable.isPending, untouched.cache, untouched.results, ← TicketTable.isPending]

theorem untouched_detach (scheduler : Scheduler) (consumer : ConsumerId) :
    Untouched scheduler (scheduler.detach consumer) where
  cache := TicketTable.foldl_dropUntracked_frame.1
  results := TicketTable.foldl_dropUntracked_frame.2.1
  run := TicketTable.run_detach scheduler.table consumer
  ready := rfl
  up := rfl

theorem untouched_release (scheduler : Scheduler) (consumer : ConsumerId)
    (query : QueryId) : Untouched scheduler (scheduler.release consumer query) where
  cache := TicketTable.dropUntracked_frame.1
  results := TicketTable.dropUntracked_frame.2.1
  run := TicketTable.run_dropUntracked _ query
  ready := rfl
  up := rfl

theorem untouched_take (scheduler : Scheduler) (mailbox : MailboxId) :
    Untouched scheduler (scheduler.act (.take mailbox)) ∧
      (scheduler.act (.take mailbox)).table = scheduler.table := by
  cases events : (scheduler.mailbox mailbox).events with
  | nil => simp only [act, takeEvent?, events, Untouched.refl, and_self]
  | cons event rest =>
      simp only [act, takeEvent?, events]
      exact ⟨⟨rfl, rfl, rfl, rfl, rfl⟩, rfl⟩

/-- Delivering events touches no ticket. -/
theorem untouched_deliver (consistent : scheduler.table.Consistent)
    (deliveries : Deliveries) : Untouched scheduler (deliveries.foldl deliver scheduler) ∧
      (deliveries.foldl deliver scheduler).table.Consistent := by
  let holds (later : Scheduler) : Prop :=
    Untouched scheduler later ∧ later.table.Consistent
  have mailed {later : Scheduler} {id : MailboxId} {event : QueryEvent}
      (given : holds later) : holds (later.updateMailbox id
      fun mailbox => { mailbox with events := mailbox.events ++ [event] }) :=
    ⟨given.1.trans ⟨rfl, rfl, rfl, rfl, rfl⟩, given.2⟩
  have detached {later : Scheduler} {other : ConsumerId} {id : MailboxId}
      (given : holds later) (_ : later.addresses.get? other = some id)
      (_ : (later.mailbox id).isHeld = false) : holds (later.detach other) :=
    ⟨given.1.trans (untouched_detach later other), given.2.detach other⟩
  exact foldl_deliver mailed detached ⟨.refl scheduler, consistent⟩

/-- A reply reaches the table, and nothing else happens to the tickets. -/
theorem untouched_reply (consistent : scheduler.table.Consistent) (reply : Reply) :
    Untouched { scheduler with table := (scheduler.table.reply reply).2 }
      (scheduler.reply reply) ∧
      (scheduler.reply reply).table.Consistent := by
  rw [reply_eq]
  exact untouched_deliver (consistent.perform (.reply reply)) _

/-- What a request does that is not refused: it asks for a ticket, and makes it
ready if it is unknown. -/
structure Asked (before : Scheduler) (consumer : ConsumerId) (query : QueryId)
    (ticket : Ticket) (after : Scheduler) : Prop where
  created : ∃ lambda bindings, ticket = Ticket.create before.run lambda bindings
  table : after.table = (before.table.request consumer query ticket).2
  addresses : after.addresses = before.addresses
  mailboxes : after.mailboxes = before.mailboxes
  up : after.isBackendUp = before.isBackendUp
  ready : before.isBackendUp = true → after.ready =
    if before.table.cache.contains ticket.id then before.ready else
      before.ready ++ [⟨query, ticket⟩]

theorem asked_of_request {apply : Apply} {placeholder : Placeholder}
    (requested : scheduler.request consumer query apply = .ok (placeholder, after)) :
    ∃ ticket, Asked scheduler consumer query ticket after := by
  obtain ⟨lambda, ticket, granted⟩ := granted_of_request requested
  obtain rfl := granted.created
  have isReady : after.isBackendUp = scheduler.isBackendUp ∧
      (scheduler.isBackendUp = true → after.ready = if scheduler.table.cache.contains
        (Ticket.create scheduler.run lambda apply.bindings).id then scheduler.ready
      else scheduler.ready ++
          [⟨query, Ticket.create scheduler.run lambda apply.bindings⟩]) := by
    simp only [request, granted.task] at requested
    split at requested
    next =>
      simp only [Except.ok.injEq, Prod.mk.injEq] at requested
      obtain ⟨_, rfl⟩ := requested
      rcases scheduler.table.request_cases consumer query
          (Ticket.create scheduler.run lambda apply.bindings) with
        ⟨_, _, known, _, same⟩ | ⟨_, known, _, same⟩ | ⟨unknown, same⟩
      · simp [same, OrderedMap.contains, known]
      · simp [same, OrderedMap.contains, known]
      · cases up : scheduler.isBackendUp <;> simp [same, dispatch,
          OrderedMap.contains, unknown]
    next => simp at requested
  exact ⟨_, ⟨lambda, apply.bindings, rfl⟩, granted.table, granted.addresses,
    granted.mailboxes, isReady.1, isReady.2⟩

/-- A consumer asks for a ticket, or touches none. -/
theorem act_cases (scheduler : Scheduler) (act : Act)
    (consistent : scheduler.table.Consistent) : (scheduler.act act).table.Consistent ∧
      (Untouched scheduler (scheduler.act act) ∨
        ∃ consumer query ticket,
          Asked scheduler consumer query ticket (scheduler.act act)) := by
  cases act with
  | attach consumer => exact ⟨consistent, .inl ⟨rfl, rfl, rfl, rfl, rfl⟩⟩
  | detach consumer =>
      exact ⟨consistent.detach consumer, .inl (scheduler.untouched_detach consumer)⟩
  | abandon mailbox => exact ⟨consistent, .inl ⟨rfl, rfl, rfl, rfl, rfl⟩⟩
  | take mailbox =>
      obtain ⟨untouched, same⟩ := scheduler.untouched_take mailbox
      exact ⟨same ▸ consistent, .inl untouched⟩
  | release consumer query =>
      exact ⟨consistent.release consumer query,
        .inl (scheduler.untouched_release consumer query)⟩
  | request consumer query apply =>
      cases requested : scheduler.request consumer query apply with
      | error fault =>
          have same : scheduler.act (.request consumer query apply) = scheduler := by
            simp [act, requested]
          rw [same]
          exact ⟨consistent, .inl (.refl scheduler)⟩
      | ok granted =>
          have same : scheduler.act (.request consumer query apply) = granted.2 := by
            simp [act, requested]
          obtain ⟨ticket, asked⟩ := asked_of_request requested
          rw [same, asked.table]
          exact ⟨consistent.request consumer query ticket,
            .inr ⟨consumer, query, ticket, asked⟩⟩

end Scheduler

namespace Engine

variable {allowed : Ticket → Reply → Prop} {engine later : Engine}
  {trace older newer : Trace} {move : Move} {moved : Engine × Move} {id : TicketId}

/-- Whatever is in flight is pending, and the other way round. -/
structure Balanced (engine : Engine) : Prop where
  up : engine.scheduler.isBackendUp = true
  consistent : engine.scheduler.table.Consistent
  load :
    ∀ id, engine.inFlight.count id = if engine.scheduler.table.isPending id then 1 else 0

theorem balanced_start (run : RunId) : (start run).Balanced where
  up := rfl
  consistent := TicketTable.consistent_empty run
  load _ := rfl

section Counting

theorem count_inFlight (engine : Engine) (id : TicketId) :
    engine.inFlight.count id =
      (engine.scheduler.ready.map fun dispatch => dispatch.ticket.id).count id +
        (engine.executing.map Ticket.id).count id +
        (engine.replies.map Reply.ticket).count id := by
  rw [inFlight, List.count_append, List.count_append]

theorem count_eraseIdx {α : Type} {list : List α} {place : Nat} {value : α}
    (key : α → TicketId) (found : list[place]? = some value) :
    (list.map key).count id =
      ((list.eraseIdx place).map key).count id + if key value = id then 1 else 0 := by
  obtain ⟨within, rfl⟩ := List.getElem?_eq_some_iff.mp found
  have rearranged := ((List.getElem_cons_eraseIdx_perm within).map key).count_eq id
  rw [← rearranged, List.map_cons, List.count_cons]
  simp

/-- Executions and replies are only moved along. -/
theorem count_execute :
    (engine.after .execute).inFlight.count id = engine.inFlight.count id := by
  simp only [count_inFlight, after]
  cases ready : engine.scheduler.ready with
  | nil => simp [ready]
  | cons dispatch rest =>
      simp only [List.map_cons, List.count_cons, List.map_append, List.map_nil,
        List.count_append, List.count_nil]
      omega

theorem count_answer {place : Nat} {reply : Reply}
    (permitted : engine.Permits allowed (.answer place reply)) :
    (engine.after (.answer place reply)).inFlight.count id = engine.inFlight.count id := by
  obtain ⟨ticket, found, named, _⟩ := permitted
  simp only [count_inFlight, after, List.map_append, List.map_cons,
    List.map_nil, List.count_append, List.count_cons, List.count_nil, named,
    count_eraseIdx Ticket.id found, beq_iff_eq]
  omega

end Counting

section Step

/-- The reply is for a ticket that is pending. -/
theorem Balanced.isPending (balanced : engine.Balanced)
    {reply : Reply} (member : reply ∈ engine.replies) :
    engine.scheduler.table.isPending reply.ticket = true := by
  have flies : reply.ticket ∈ engine.inFlight :=
    List.mem_append_right _ (List.mem_map_of_mem member)
  have counted := List.count_pos_iff.mpr flies
  rw [balanced.load] at counted
  by_contra other
  simp [other] at counted

theorem Balanced.act (balanced : engine.Balanced) (act : Scheduler.Act) :
    (engine.after (.act act)).Balanced := by
  obtain ⟨consistent, untouched | ⟨consumer, query, ticket, asked⟩⟩ :=
    engine.scheduler.act_cases act balanced.consistent
  · refine ⟨untouched.up.trans balanced.up, consistent, fun id => ?_⟩
    have same : (engine.after (.act act)).inFlight = engine.inFlight := by
      rw [inFlight, after, untouched.ready, ← inFlight]
    rw [same, balanced.load, ← untouched.isPending]
    rfl
  · refine ⟨asked.up.trans balanced.up, consistent, fun id => ?_⟩
    have pending : (engine.after (.act act)).scheduler.table.isPending id = true ↔
        engine.scheduler.table.isPending id = true ∨
          (ticket.id = id ∧ engine.scheduler.table.cache.get? id = none) := by
      rw [← balanced.consistent.isPending_request consumer query ticket, ← asked.table]
      rfl
    have load := balanced.load id
    have ready : (engine.after (.act act)).scheduler.ready = _ := asked.ready balanced.up
    rw [count_inFlight] at load ⊢
    rw [ready]
    change _ + (engine.executing.map Ticket.id).count id +
      (engine.replies.map Reply.ticket).count id = _
    cases known : engine.scheduler.table.cache.get? ticket.id with
    | some cached =>
        have same : (engine.after (.act act)).scheduler.table.isPending id =
            engine.scheduler.table.isPending id := by
          rw [Bool.eq_iff_iff, pending]
          refine ⟨?_, .inl⟩
          rintro (pending | ⟨rfl, unknown⟩)
          · exact pending
          · simp [known] at unknown
        simp only [OrderedMap.contains, known, Option.isSome_some, if_true, same]
        exact load
    | none =>
        simp only [OrderedMap.contains, known, Option.isSome_none, Bool.false_eq_true,
          if_false, List.map_append, List.map_cons, List.map_nil, List.count_append,
          List.count_cons, List.count_nil, beq_iff_eq]
        by_cases same : ticket.id = id
        · subst same
          have unknown : engine.scheduler.table.isPending ticket.id = false := by
            simp [TicketTable.isPending, OrderedMap.contains, known]
          rw [unknown] at load
          rw [pending.mpr (.inr ⟨rfl, known⟩)]
          simp only [if_true, Bool.false_eq_true, if_false] at load ⊢
          omega
        · have kept : (engine.after (.act act)).scheduler.table.isPending id =
              engine.scheduler.table.isPending id := by
            rw [Bool.eq_iff_iff, pending]
            simp [same]
          rw [kept, ← load]
          simp [same]

theorem Balanced.apply (balanced : engine.Balanced) (place : Nat) :
    (engine.after (.apply place)).Balanced := by
  cases found : engine.replies[place]? with
  | none =>
      have same : engine.after (.apply place) = engine := by simp [after, found]
      rw [same]
      exact balanced
  | some reply =>
      obtain ⟨untouched, consistent⟩ :=
        Scheduler.untouched_reply balanced.consistent reply
      have same : engine.after (.apply place) =
          { engine with
            scheduler := engine.scheduler.reply reply,
            replies := engine.replies.eraseIdx place } := by
        simp [after, found]
      rw [same]
      refine ⟨untouched.up.trans balanced.up, consistent, fun id => ?_⟩
      have load := balanced.load id
      rw [count_inFlight, count_eraseIdx Reply.ticket found] at load
      rw [count_inFlight, untouched.ready]
      have pending : (engine.scheduler.reply reply).table.isPending id = true ↔
          engine.scheduler.table.isPending id = true ∧ reply.ticket ≠ id := by
        rw [untouched.isPending]
        exact TicketTable.isPending_reply
      by_cases named : reply.ticket = id
      · have settled : (engine.scheduler.reply reply).table.isPending id = false := by
          simpa [named] using pending
        have before := balanced.isPending (List.mem_of_getElem? found)
        rw [named] at before
        simp only [named, before, if_true, settled, Bool.false_eq_true,
          if_false] at load ⊢
        omega
      · have kept : (engine.scheduler.reply reply).table.isPending id =
            engine.scheduler.table.isPending id := by
          rw [Bool.eq_iff_iff, pending]
          simp [named]
        rw [kept, ← load]
        simp [named]

/-- Every move keeps the balance. -/
theorem Balanced.after (balanced : engine.Balanced)
    (permitted : engine.Permits allowed move) : (engine.after move).Balanced := by
  cases move with
  | act act => exact balanced.act act
  | execute =>
      have same : (engine.after .execute).scheduler.table = engine.scheduler.table ∧
          (engine.after .execute).scheduler.isBackendUp = engine.scheduler.isBackendUp := by
        simp only [Engine.after]
        split <;> exact ⟨rfl, rfl⟩
      refine ⟨same.2.trans balanced.up, same.1 ▸ balanced.consistent, fun id => ?_⟩
      rw [count_execute, balanced.load, same.1]
  | answer place reply =>
      refine ⟨balanced.up, balanced.consistent, fun id => ?_⟩
      rw [count_answer permitted, balanced.load]
      rfl
  | apply place => exact balanced.apply place

theorem Run.balanced {first : Engine} (run : Run allowed first trace engine)
    (balanced : first.Balanced) : engine.Balanced := by
  induction run with
  | start => exact balanced
  | move _ permitted ih => exact ih.after permitted

end Step

section Tickets

/-- No ticket comes, goes or is made ready; or a consumer asks for one; or a
reply reaches the table. -/
theorem Balanced.after_cases (balanced : engine.Balanced) (move : Move) :
    ((engine.after move).scheduler.table.cache = engine.scheduler.table.cache ∧
        (engine.after move).scheduler.table.results = engine.scheduler.table.results ∧
        (engine.after move).scheduler.ready <:+ engine.scheduler.ready) ∨
      (∃ consumer query ticket,
        engine.scheduler.Asked consumer query ticket (engine.after move).scheduler) ∨
      ∃ place reply, move = .apply place ∧ engine.replies[place]? = some reply ∧
      Scheduler.Untouched
        { engine.scheduler with table := (engine.scheduler.table.reply reply).2 }
        (engine.after move).scheduler := by
  cases move with
  | act act =>
      obtain ⟨_, untouched | asked⟩ := engine.scheduler.act_cases act balanced.consistent
      · exact .inl ⟨untouched.cache, untouched.results, untouched.ready ▸ List.suffix_rfl⟩
      · exact .inr (.inl asked)
  | execute =>
      simp only [Engine.after]
      split
      next ready => exact .inl ⟨rfl, rfl, List.suffix_rfl⟩
      next ready => exact .inl ⟨rfl, rfl, ready ▸ List.suffix_cons _ _⟩
  | answer place reply => exact .inl ⟨rfl, rfl, List.suffix_rfl⟩
  | apply place =>
      cases found : engine.replies[place]? with
      | none =>
          have same : engine.after (.apply place) = engine := by
            simp [Engine.after, found]
          rw [same]
          exact .inl ⟨rfl, rfl, List.suffix_rfl⟩
      | some reply =>
          have same :
              (engine.after (.apply place)).scheduler = engine.scheduler.reply reply := by
            simp [Engine.after, found]
          rw [same]
          exact .inr (.inr ⟨place, reply, rfl, found,
            (Scheduler.untouched_reply balanced.consistent reply).1⟩)

end Tickets

section Dispatch

/-- A ticket is made ready only while it is unknown, and is cached from then on. -/
theorem Balanced.unknown_of_dispatches (balanced : engine.Balanced)
    (dispatches : Dispatches (engine, move) id) :
    engine.scheduler.table.cache.get? id = none ∧
      (engine.after move).scheduler.table.cache.get? id ≠ none := by
  obtain ⟨dispatch, grows, rfl⟩ := dispatches
  have grows :
      (engine.after move).scheduler.ready = engine.scheduler.ready ++ [dispatch] := grows
  have grown : ¬(engine.after move).scheduler.ready <:+ engine.scheduler.ready := by
    intro shorter
    have bound := shorter.length_le
    rw [grows, List.length_append, List.length_singleton] at bound
    omega
  rcases balanced.after_cases move with
      ⟨_, _, shorter⟩ | ⟨consumer, query, ticket, asked⟩ | ⟨_, _, _, _, untouched⟩
  · exact absurd shorter grown
  · have ready := asked.ready balanced.up
    split at ready
    next => exact absurd (ready ▸ List.suffix_rfl) grown
    next unknown =>
      obtain rfl :=
        List.singleton_inj.mp (List.append_cancel_left (ready.symm.trans grows))
      have absent : engine.scheduler.table.cache.get? ticket.id = none := by
        simpa [OrderedMap.contains] using unknown
      have pending : (engine.after move).scheduler.table.isPending ticket.id = true := by
        rw [asked.table]
        exact (balanced.consistent.isPending_request consumer query ticket).mpr
          (.inr ⟨rfl, absent⟩)
      refine ⟨absent, fun lost => ?_⟩
      simp [TicketTable.isPending, OrderedMap.contains, lost] at pending
  · exact absurd (untouched.ready ▸ List.suffix_rfl) grown

/-- A ticket stays cached until a reply fails it. -/
theorem Balanced.cached_after (balanced : engine.Balanced)
    (cached : engine.scheduler.table.cache.get? id ≠ none)
    (upheld : ¬Fails (engine, move) id) :
    (engine.after move).scheduler.table.cache.get? id ≠ none := by
  rcases balanced.after_cases move with
    ⟨cache, _, _⟩ | ⟨consumer, query, ticket, asked⟩ | ⟨place, reply, rfl, found, untouched⟩
  · rw [cache]
    exact cached
  · have kept : (engine.after move).scheduler.table.standingOf id ≠ .unknown := by
      rw [asked.table, balanced.consistent.standingOf_request]
      cases standing : engine.scheduler.table.standingOf id with
      | unknown => exact absurd (TicketTable.standingOf_eq_unknown_iff.mp standing) cached
      | pending before => simp [TicketTable.Standing.after]
      | done before => simp [TicketTable.Standing.after]
    exact fun gone => kept (TicketTable.standingOf_eq_unknown_iff.mpr gone)
  · rw [untouched.cache]
    refine TicketTable.cached_reply cached ?_
    rintro ⟨named, failure, fails⟩
    exact upheld ⟨place, reply, failure, rfl, found, named, fails⟩

theorem Run.cached {first : Engine} (run : Run allowed first trace engine)
    (balanced : first.Balanced) (cached : first.scheduler.table.cache.get? id ≠ none)
    (upheld : ∀ moved ∈ trace, ¬Fails moved id) :
    engine.scheduler.table.cache.get? id ≠ none := by
  induction run with
  | start => exact cached
  | move run _ ih =>
      exact (run.balanced balanced).cached_after
        (ih fun moved member => upheld moved (List.mem_cons_of_mem _ member))
        (upheld _ List.mem_cons_self)

/-- What comes before a move of a run, and what comes after it, are runs. -/
theorem Run.split {first : Engine} (run : Run allowed first trace engine)
    (cut : trace = newer ++ moved :: older) :
    Run allowed first older moved.1 ∧ moved.1.Permits allowed moved.2 ∧
      Run allowed (moved.1.after moved.2) newer engine := by
  induction run generalizing newer with
  | start => simp at cut
  | move run permitted ih =>
      cases newer with
      | nil =>
          obtain ⟨rfl, rfl⟩ := List.cons.inj cut
          exact ⟨run, permitted, .start⟩
      | cons latest newer =>
          obtain ⟨rfl, inside⟩ := List.cons.inj cut
          obtain ⟨before, granted, rest⟩ := ih inside
          exact ⟨before, granted, .move rest permitted⟩

end Dispatch

section Stored

variable {outputs : List Compound}

/-- Replies are for tickets without results, so results are only added. -/
theorem Balanced.stored_after (balanced : engine.Balanced)
    (stored : engine.scheduler.table.results.get? id = some outputs) :
    (engine.after move).scheduler.table.results.get? id = some outputs := by
  rcases balanced.after_cases move with
    ⟨_, results, _⟩ | ⟨consumer, query, ticket, asked⟩ | ⟨place, reply, rfl, found, untouched⟩
  · rw [results]
    exact stored
  · rw [asked.table, TicketTable.results_request]
    exact stored
  · have pending := balanced.isPending (List.mem_of_getElem? found)
    have apart : reply.ticket ≠ id := by
      rintro rfl
      simp [TicketTable.isPending, OrderedMap.contains, stored] at pending
    rw [untouched.results]
    exact (TicketTable.get?_reply_of_ne apart).2.trans stored

theorem Run.stored {first : Engine}
    (run : Run allowed first trace engine) (balanced : first.Balanced)
    (stored : first.scheduler.table.results.get? id = some outputs) :
    engine.scheduler.table.results.get? id = some outputs := by
  induction run with
  | start => exact stored
  | move run _ ih => exact (run.balanced balanced).stored_after ih

end Stored

/-- Whatever consumers do and in whatever order replies arrive, what is executed or
answered are the tickets without results, each of them once. -/
theorem Run.disciplined {run : RunId}
    (runs : Run allowed (Engine.start run) trace engine) :
    Disciplined allowed trace engine where
  load := (runs.balanced (balanced_start run)).load
  alone id := by
    have load := (runs.balanced (balanced_start run)).load id
    rw [count_inFlight] at load
    split at load <;> omega
  repeated := by
    intro newer middle older first second id cut dispatched again
    by_contra never
    obtain ⟨before, _, _⟩ := runs.split cut
    obtain ⟨earlier, _, between⟩ := before.split rfl
    have balanced := earlier.balanced (balanced_start run)
    have upheld : ∀ moved ∈ middle, ¬Fails moved id :=
      fun moved member fails => never ⟨moved, member, fails⟩
    have permitted := (before.split rfl).2.1
    have cached :=
      between.cached (balanced.after permitted)
        (balanced.unknown_of_dispatches dispatched).2 upheld
    exact cached ((before.balanced (balanced_start run)).unknown_of_dispatches again).1
  heeded reply member := by
    have pending := (runs.balanced (balanced_start run)).isPending member
    obtain ⟨cached, standing⟩ := TicketTable.isPending_iff.mp pending
    exact ⟨cached, standing, TicketTable.verdict_ne_ignored pending⟩
  stored later stored := later.stored (runs.balanced (balanced_start run)) stored

section Samples

def fetchRun : RunId := ⟨Uuid.nil⟩

def fetchTask : ForeignLambda where
  name := "fetch"
  prototype := { params := [.plain "url"], outputs := ["page"] }
  lang := "bash"
  script := "fetch $url > $page"

def fetchTicket : Ticket := Ticket.create fetchRun fetchTask [("url", [.str "a"])]

def fetchFailed : Reply :=
  .failed
    { ticket := fetchTicket.id
      lambda := "fetch"
      script := fetchTask.script
      stdout := ""
      stderr := "unreachable" }

def askFetch : Move :=
  .act (.request ⟨1⟩ ⟨1⟩
    { task := [.lambda (.foreign fetchTask)]
      bindings := [("url", [.str "a"])]
      channel := 1 })

def fetchExecuting : Engine :=
  (((start fetchRun).after (.act (.attach ⟨1⟩))).after askFetch).after .execute

def fetchAnswered : Engine :=
  fetchExecuting.after (.answer 0 fetchFailed)

/-- The failed ticket is asked for once more. -/
def fetchRetried : Engine :=
  (fetchAnswered.after (.apply 0)).after askFetch

def fetchTrace : Trace :=
  [(fetchAnswered.after (.apply 0), askFetch),
    (fetchAnswered, .apply 0), (fetchExecuting, .answer 0 fetchFailed),
    (((start fetchRun).after (.act (.attach ⟨1⟩))).after askFetch, .execute),
    ((start fetchRun).after (.act (.attach ⟨1⟩)), askFetch),
    (start fetchRun, .act (.attach ⟨1⟩))]

def readyIds (engine : Engine) : List TicketId :=
  engine.scheduler.ready.map fun dispatch => dispatch.ticket.id

theorem evaluated_fetchRetried :
    (((start fetchRun).after (.act (.attach ⟨1⟩))).after askFetch).readyIds =
      [fetchTicket.id] ∧ fetchExecuting.executing.map Ticket.id = [fetchTicket.id] ∧
      (fetchAnswered.after (.apply 0)).readyIds = [] ∧
      fetchRetried.readyIds = [fetchTicket.id] ∧
      fetchRetried.scheduler.table.isPending fetchTicket.id = true := by
  decide +kernel

theorem run_fetchRetried :
    Run (fun _ _ => True) (start fetchRun) fetchTrace fetchRetried := by
  obtain ⟨_, executed, _⟩ := evaluated_fetchRetried
  obtain ⟨ticket, executing, named⟩ := List.map_eq_singleton_iff.mp executed
  have answers : fetchExecuting.Permits (fun _ _ => True) (.answer 0 fetchFailed) :=
    ⟨ticket, by simp [executing], named.symm, trivial⟩
  exact .move
    (.move (.move (.move (.move (.move .start trivial) trivial) trivial) answers) trivial)
    trivial

theorem dispatches_askFetch {engine : Engine} (idle : engine.readyIds = [])
    (ready : (engine.after askFetch).readyIds = [fetchTicket.id]) :
    Dispatches (engine, askFetch) fetchTicket.id := by
  obtain ⟨dispatch, same, named⟩ := List.map_eq_singleton_iff.mp ready
  exact ⟨dispatch, by rw [same, List.map_eq_nil_iff.mp idle]; rfl, named⟩

theorem disciplined_fetchRetried :
    Run (fun _ _ => True) (start fetchRun) fetchTrace fetchRetried ∧
      fetchRetried.inFlight.count fetchTicket.id = 1 ∧
      ∃ moved, moved ∈ (fetchTrace.drop 1).take 3 ∧ Fails moved fetchTicket.id := by
  have disciplined := run_fetchRetried.disciplined
  obtain ⟨asked, _, idle, again, pending⟩ := evaluated_fetchRetried
  refine ⟨run_fetchRetried, by rw [disciplined.load, pending]; rfl, ?_⟩
  have first :
      Dispatches ((start fetchRun).after (.act (.attach ⟨1⟩)), askFetch) fetchTicket.id :=
    dispatches_askFetch rfl asked
  have second : Dispatches (fetchAnswered.after (.apply 0), askFetch) fetchTicket.id :=
    dispatches_askFetch idle again
  exact @Disciplined.repeated _ _ _ disciplined [] ((fetchTrace.drop 1).take 3)
    [(start fetchRun, .act (.attach ⟨1⟩))] _ _ _ rfl first second

end Samples

end Engine

end TicketFlow
