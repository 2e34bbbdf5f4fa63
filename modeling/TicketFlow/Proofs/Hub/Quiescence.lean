import TicketFlow.Proofs.Hub.Wakefulness

namespace TicketFlow

/-! Nothing is left running once everything is quiet.

A hub runs together with a backend that executes whatever is ready, and answers
every execution once.  What queries wait for is then in flight, so a query that
is run has a ticket in flight or an event in the mailbox of its front end.
-/

namespace Engine

variable {engine : Engine} {allowed : Scheduler → Scheduler.Act → Prop}
  {after : Scheduler} {id : TicketId}

theorem Balanced.leads (balanced : engine.Balanced)
    (leads : Scheduler.Leads allowed engine.scheduler after) :
    ({ engine with scheduler := after } : Engine).Balanced := by
  let holds (later : Scheduler) : Prop :=
    ({ engine with scheduler := later } : Engine).Balanced
  have kept {later : Scheduler} {act : Scheduler.Act} (given : holds later)
      (_ : allowed later act) : holds (later.act act) := given.act act
  have begins : holds engine.scheduler := balanced
  exact leads.keeps kept begins

/-- Whatever a query waits for is in flight. -/
theorem Balanced.mem_inFlight (balanced : engine.Balanced) {query : QueryId}
    (waits : id ∈ engine.scheduler.table.outstandingOf query) : id ∈ engine.inFlight := by
  obtain ⟨⟨cached, known⟩, unstored⟩ := balanced.consistent.awaited waits
  have pending : engine.scheduler.table.isPending id = true :=
    TicketTable.isPending_iff.mpr ⟨cached, TicketTable.standingOf_pending known unstored⟩
  rw [← List.count_pos_iff, balanced.load, pending]
  exact Nat.one_pos

end Engine

/-- A hub, the tickets being executed for it and the replies under way to it. -/
structure Runtime where
  hub : Hub
  executing : List Ticket := []
  replies : List Reply := []

namespace Runtime

inductive Move where
  | spawn (consumer : ConsumerId)
  | submit (index : Nat) (id : QueryId) (context : Context)
  /-- The front end takes its next event, or stops for want of a mailbox. -/
  | advance (index : Nat)
  /-- The first ticket that is ready is executed from now on. -/
  | execute
  /-- The execution at this place ends in a reply. -/
  | answer (place : Nat) (reply : Reply)
  /-- The reply at this place reaches the scheduler. -/
  | apply (place : Nat)

def start (run : RunId) (depth : Nat) : Runtime where
  hub := Hub.begin run depth

def after (runtime : Runtime) : Move → Runtime
  | .spawn consumer => { runtime with hub := runtime.hub.play (.spawn consumer) }
  | .submit index id context =>
      { runtime with hub := runtime.hub.play (.submit index id context) }
  | .advance index => { runtime with hub := runtime.hub.play (.advance index) }
  | .execute =>
      { runtime with
        hub := runtime.hub.play .take
        executing := runtime.executing ++
          (runtime.hub.scheduler.ready.take 1).map Dispatch.ticket }
  | .answer place reply =>
      { runtime with
        executing := runtime.executing.eraseIdx place,
        replies := runtime.replies ++ [reply] }
  | .apply place =>
      match runtime.replies[place]? with
      | none => runtime
      | some reply =>
          { runtime with
            hub := runtime.hub.play (.reply reply),
            replies := runtime.replies.eraseIdx place }

/-- What is submitted is admitted, and so is every reduction; an execution
answers for its own ticket. -/
def Permits (runtime : Runtime) : Move → Prop
  | .submit index id context => runtime.hub.Admits (.submit index id context)
  | .advance index => runtime.hub.Admits (.advance index)
  | .answer place reply =>
      ∃ ticket, runtime.executing[place]? = some ticket ∧
        reply.ticket = ticket.id ∧ reply.IsLiteral
  | .spawn _ | .execute | .apply _ => True

inductive Reaches (start : Runtime) : Runtime → Prop where
  | start : Reaches start start
  | move {runtime : Runtime} {move : Move} :
      Reaches start runtime → runtime.Permits move → Reaches start (runtime.after move)

def engine (runtime : Runtime) : Engine where
  scheduler := runtime.hub.scheduler
  executing := runtime.executing
  replies := runtime.replies

/-- Nothing is ready, executed or answered, and there is nothing to read. -/
structure IsQuiet (runtime : Runtime) : Prop where
  still : runtime.engine.inFlight = []
  read :
    ∀ frontEnd ∈ runtime.hub.frontEnds,
    (runtime.hub.scheduler.mailbox frontEnd.mailbox).events = []

variable {runtime : Runtime} {move : Move} {run : RunId} {depth : Nat}

section Engines

theorem engine_execute (runtime : Runtime) :
    (runtime.after .execute).engine = runtime.engine.after .execute := by
  cases ready : runtime.hub.scheduler.ready with
  | nil =>
      have unchanged : { runtime.hub.scheduler with ready := [] } =
          runtime.hub.scheduler := by rw [← ready]
      simp [Runtime.after, Engine.after, engine, Hub.play, ready, unchanged]
  | cons dispatch rest => simp [Runtime.after, Engine.after, engine, Hub.play, ready]

theorem engine_apply (runtime : Runtime) (place : Nat) :
    (runtime.after (.apply place)).engine = runtime.engine.after (.apply place) := by
  cases found : runtime.replies[place]? with
  | none => simp [Runtime.after, Engine.after, engine, found]
  | some reply =>
      simp [Runtime.after, Engine.after, engine, Hub.play, found, Hub.scheduler_reply]

end Engines

/-- The front ends keep watch, what is in flight is what the table has without results,
and replies are literal. -/
structure Healthy (run : RunId) (runtime : Runtime) : Prop where
  vigilant : runtime.hub.Vigilant run
  balanced : runtime.engine.Balanced
  literal : ∀ reply ∈ runtime.replies, reply.IsLiteral

theorem healthy_start (run : RunId) (depth : Nat) : (start run depth).Healthy run where
  vigilant := Hub.vigilant_begin run depth
  balanced := Engine.balanced_start run
  literal _ member := absurd member List.not_mem_nil

/-- What front ends do keeps the balance. -/
theorem Healthy.balanced_play (healthy : runtime.Healthy run) {played : Hub.Move}
    (own : played ≠ .take) (passive : ∀ reply, played ≠ .reply reply) :
    ({ runtime with hub := runtime.hub.play played } : Runtime).engine.Balanced := by
  rcases healthy.vigilant.kept.leads_play played with
      leads | ⟨takes, _⟩ | ⟨reply, replies, _⟩
  · exact healthy.balanced.leads leads
  · exact absurd takes own
  · exact absurd replies (passive reply)

/-- Every permitted move keeps things healthy. -/
theorem Healthy.after (healthy : runtime.Healthy run) (permitted : runtime.Permits move) :
    (runtime.after move).Healthy run := by
  cases move with
  | spawn consumer =>
      exact ⟨@Hub.Vigilant.play _ (.spawn consumer) _ healthy.vigilant trivial,
        healthy.balanced_play (by simp) (by simp), healthy.literal⟩
  | submit index id context =>
      exact ⟨@Hub.Vigilant.play _ (.submit index id context) _ healthy.vigilant permitted,
        healthy.balanced_play (by simp) (by simp), healthy.literal⟩
  | advance index =>
      exact ⟨@Hub.Vigilant.play _ (.advance index) _ healthy.vigilant permitted,
        healthy.balanced_play (by simp) (by simp), healthy.literal⟩
  | execute =>
      refine ⟨@Hub.Vigilant.play _ .take _ healthy.vigilant trivial, ?_, healthy.literal⟩
      rw [engine_execute]
      exact @Engine.Balanced.after (fun _ _ => True) _ .execute healthy.balanced trivial
  | answer place reply =>
      obtain ⟨ticket, found, named, literal⟩ := permitted
      refine ⟨healthy.vigilant, ?_, fun other member => ?_⟩
      · exact @Engine.Balanced.after (fun _ _ => True) _
          (.answer place reply) healthy.balanced ⟨ticket, found, named, trivial⟩
      · rcases List.mem_append.mp member with before | new
        · exact healthy.literal other before
        · exact List.mem_singleton.mp new ▸ literal
  | apply place =>
      have balanced : (runtime.after (.apply place)).engine.Balanced := by
        rw [engine_apply]
        exact healthy.balanced.apply place
      cases found : runtime.replies[place]? with
      | none =>
          have same : runtime.after (.apply place) = runtime := by
            simp [Runtime.after, found]
          rw [same]
          exact healthy
      | some reply =>
          have same : runtime.after (.apply place) =
              { runtime with
                hub := runtime.hub.play (.reply reply),
                replies := runtime.replies.eraseIdx place } := by
            simp [Runtime.after, found]
          rw [same] at balanced ⊢
          have member := List.mem_of_getElem? found
          have admits : runtime.hub.Admits (.reply reply) :=
            ⟨healthy.literal reply member, healthy.balanced.isPending member⟩
          refine ⟨healthy.vigilant.play admits, balanced, ?_⟩
          exact fun other kept => healthy.literal other (List.mem_of_mem_eraseIdx kept)

theorem Reaches.healthy (reached : (Runtime.start run depth).Reaches runtime) :
    runtime.Healthy run := by
  induction reached with
  | start => exact healthy_start run depth
  | move _ permitted ih => exact ih.after permitted

/-- Front ends of different consumers are alone. -/
theorem alone_of_nodup {hub : Hub}
    (distinct : (hub.frontEnds.map FrontEnd.consumer).Nodup) (index : Nat) :
    hub.Alone index := by
  intro other frontEnd another found here same
  have within : other < (hub.frontEnds.map FrontEnd.consumer).length := by
    rw [List.length_map]
    exact (List.getElem?_eq_some_iff.mp here).1
  exact (List.getElem?_inj within distinct).mp (by simp [found, here, same])

/-- If every front end has a consumer of its own, then for each query that is run a ticket
is in flight that it waits for, or there is an event about it to read.  So once everything
is quiet, every query that was ever submitted has been told how it ended.  (Unless the
query meets a placeholder whose ticket was finished without that output: then the run has
given the address of the ticket to another invocation too, which has fewer outputs.) -/
theorem Reaches.none_left_running (reached : (Runtime.start run depth).Reaches runtime)
    (distinct : (runtime.hub.frontEnds.map FrontEnd.consumer).Nodup) :
    (∀ frontEnd ∈ runtime.hub.frontEnds, ∀ {id : QueryId}
      {query : Query}, frontEnd.queries.get? id = some query →
      (∃ ticket ∈ runtime.hub.scheduler.table.outstandingOf id,
        ticket ∈ runtime.engine.inFlight) ∨
          (∃ event ∈ (runtime.hub.scheduler.mailbox frontEnd.mailbox).events,
            event.query = id) ∨ query.context.Lacking runtime.hub.scheduler.table) ∧
      (runtime.IsQuiet → ∀ {id : QueryId}, id ∈ runtime.hub.issued →
        ∃ frontEnd ∈ runtime.hub.frontEnds, (∃ notice ∈ frontEnd.noticesOf id,
          notice.isTerminal = true) ∨ ∃ query, frontEnd.queries.get? id = some query ∧
          query.context.Lacking runtime.hub.scheduler.table) := by
  obtain ⟨vigilant, balanced, _⟩ := reached.healthy
  have alone := alone_of_nodup distinct
  have due {frontEnd : FrontEnd} (member : frontEnd ∈ runtime.hub.frontEnds)
      {id : QueryId} {query : Query} (held : frontEnd.queries.get? id = some query) :
      (∃ ticket ∈ runtime.hub.scheduler.table.outstandingOf id,
        ticket ∈ runtime.engine.inFlight) ∨
        (∃ event ∈ (runtime.hub.scheduler.mailbox frontEnd.mailbox).events, event.query = id) ∨
        query.context.Lacking runtime.hub.scheduler.table := by
    obtain ⟨index, found⟩ := List.mem_iff_getElem?.mp member
    obtain rfl := ((vigilant.kept.orderly found).keyed held).1
    refine ((vigilant.wakeful (alone index) found).minds held).due.imp_left
      fun outstanding => ?_
    obtain ⟨ticket, waits⟩ := List.exists_mem_of_ne_nil _ outstanding
    exact ⟨ticket, waits, balanced.mem_inFlight waits⟩
  refine ⟨fun frontEnd member {id query} held => due member held, fun quiet id issued => ?_⟩
  obtain ⟨frontEnd, member, running | told⟩ := vigilant.answered alone issued
  · obtain ⟨query, held⟩ := Option.isSome_iff_exists.mp running
    refine ⟨frontEnd, member, .inr ⟨query, held, ?_⟩⟩
    rcases due member held with ⟨ticket, _, flies⟩ | ⟨event, unread, _⟩ | lacking
    · rw [quiet.still] at flies
      exact absurd flies List.not_mem_nil
    · rw [quiet.read frontEnd member] at unread
      exact absurd unread List.not_mem_nil
    · exact lacking
  · exact ⟨frontEnd, member, .inl told⟩

section Samples

/-- One ticket. -/
def fetchContext : Context where
  arena := { blocks := #[{}] }
  root := ⟨0⟩
  targets := [[.apply [.lambda (.foreign Engine.fetchTask)] [("url", [.str "a"])] 1 false]]

theorem unbound_fetchContext {slot : BlockId} {block : Block}
    (stored : fetchContext.arena.block? slot = some block) : block = {} := by
  obtain ⟨index⟩ := slot
  cases index with
  | zero => exact (Option.some.inj stored).symm
  | succ index => simp [fetchContext, Arena.block?] at stored

theorem fresh_fetchContext : fetchContext.Fresh where
  arena :=
    { distinct := List.nodup_nil
      within := by simp [fetchContext]
      bound := fun stored bound => absurd (unbound_fetchContext stored ▸ bound) boundIn_nil }
  targets := by
    intro term inside
    obtain rfl := List.mem_singleton.mp inside
    rfl

theorem grounded_fetchContext : fetchContext.Grounded := by
  refine (Context.closed_of_whole rfl (by decide) (by decide) (by decide)).grounded ?_ ?_
  · exact fun _ stored bound => absurd (unbound_fetchContext stored ▸ bound) boundIn_nil
  · intro term inside
    obtain rfl := List.mem_singleton.mp inside
    refine .apply (fun task member => ?_) fun argument ⟨binding, member, inside⟩ => ?_
    · obtain rfl := List.mem_singleton.mp member
      exact .lambda fun native same => nomatch same
    · obtain rfl := List.mem_singleton.mp member
      obtain rfl := List.mem_singleton.mp inside
      exact .str "a"

def fetchReply : Reply := .finished Engine.fetchTicket.id [[.str "p"]] []

def fetchSpawned : Runtime :=
  (Runtime.start Engine.fetchRun Reduction.ampleDepth).after (.spawn ⟨1⟩)

def fetchAsked : Runtime :=
  fetchSpawned.after (.submit 0 ⟨0⟩ fetchContext)

/-- The ticket that is ready is executed and answered. -/
def fetched (runtime : Runtime) : Runtime :=
  ((runtime.after .execute).after (.answer 0 fetchReply)).after (.apply 0)

def fetchRead : Runtime :=
  (fetched fetchAsked).after (.advance 0)

/-- A second front end of the same consumer gets the news instead. -/
def fetchLost : Runtime :=
  (fetched (fetchAsked.after (.spawn ⟨1⟩))).after (.advance 1)

theorem reaches_fetched {start : Runtime}
    (reached : start.Reaches runtime) (idle : runtime.executing = [])
    (ready : (runtime.hub.scheduler.ready.map fun dispatch => dispatch.ticket.id) =
      [Engine.fetchTicket.id]) : start.Reaches (fetched runtime) := by
  obtain ⟨dispatch, single, named⟩ := List.map_eq_singleton_iff.mp ready
  have executes : (runtime.after .execute).executing = [dispatch.ticket] := by
    simp [Runtime.after, idle, single]
  have answers : (runtime.after .execute).Permits (.answer 0 fetchReply) :=
    ⟨dispatch.ticket, by simp [executes], named.symm, [["p"]], rfl⟩
  have executed : start.Reaches (runtime.after .execute) := reached.move trivial
  have answered : start.Reaches ((runtime.after .execute).after (.answer 0 fetchReply)) :=
    executed.move answers
  exact answered.move (trivial : Permits _ (.apply 0))

/-- The front end has read the news, and does not run the query any more. -/
theorem evaluated_fetchRead :
    fetchSpawned.hub.terminates (.submit 0 ⟨0⟩ fetchContext) = true ∧
      (fetchAsked.hub.scheduler.ready.map fun dispatch => dispatch.ticket.id) =
        [Engine.fetchTicket.id] ∧
      (fetched fetchAsked).hub.terminates (.advance 0) = true ∧
      fetchRead.engine.inFlight = [] ∧ fetchRead.hub.issued = [⟨0⟩] ∧
      (fetchRead.hub.frontEnds.map fun frontEnd =>
        ((fetchRead.hub.scheduler.mailbox frontEnd.mailbox).events.isEmpty,
          frontEnd.runs ⟨0⟩)) = [(true, false)] := by
  decide +kernel

theorem reaches_fetchAsked :
    (Runtime.start Engine.fetchRun Reduction.ampleDepth).Reaches fetchAsked := by
  have spawned : (Runtime.start Engine.fetchRun Reduction.ampleDepth).Reaches fetchSpawned :=
    Reaches.start.move trivial
  have admits : fetchSpawned.Permits (.submit 0 ⟨0⟩ fetchContext) :=
    ⟨fresh_fetchContext, grounded_fetchContext, evaluated_fetchRead.1⟩
  exact spawned.move admits

/-- Everything is quiet, and the query has been told how it ended. -/
theorem none_left_running_fetchRead :
    fetchRead.IsQuiet ∧ ∃ frontEnd ∈ fetchRead.hub.frontEnds,
      ∃ notice ∈ frontEnd.noticesOf ⟨0⟩, notice.isTerminal = true := by
  obtain ⟨_, ready, ends, still, issues, seen⟩ := evaluated_fetchRead
  obtain ⟨only, frontEnds, same⟩ := List.map_eq_singleton_iff.mp seen
  obtain ⟨read, idle⟩ := Prod.mk.inj same
  have advanced : (fetched fetchAsked).Permits (.advance 0) := ends
  have reached : (Runtime.start Engine.fetchRun Reduction.ampleDepth).Reaches fetchRead :=
    (reaches_fetched reaches_fetchAsked rfl ready).move advanced
  have distinct : (fetchRead.hub.frontEnds.map FrontEnd.consumer).Nodup := by
    rw [frontEnds]
    exact List.nodup_singleton _
  have quiet : fetchRead.IsQuiet := by
    refine ⟨still, fun frontEnd member => ?_⟩
    rw [frontEnds] at member
    obtain rfl := List.mem_singleton.mp member
    exact List.isEmpty_iff.mp read
  have submitted : ⟨0⟩ ∈ fetchRead.hub.issued := issues ▸ List.mem_cons_self
  obtain ⟨frontEnd, member, told | ⟨query, held, _⟩⟩ :=
    (reached.none_left_running distinct).2 quiet submitted
  · exact ⟨quiet, frontEnd, member, told⟩
  · rw [frontEnds] at member
    obtain rfl := List.mem_singleton.mp member
    simp [FrontEnd.runs_of_get? held] at idle

theorem evaluated_fetchLost :
    ((fetchAsked.after (.spawn ⟨1⟩)).hub.scheduler.ready.map
      fun dispatch => dispatch.ticket.id) = [Engine.fetchTicket.id] ∧
      (fetched (fetchAsked.after (.spawn ⟨1⟩))).hub.terminates (.advance 1) = true ∧
      fetchLost.engine.inFlight = [] ∧ fetchLost.hub.issued = [⟨0⟩] ∧
      (fetchLost.hub.frontEnds.map fun frontEnd =>
        ((fetchLost.hub.scheduler.mailbox frontEnd.mailbox).events.isEmpty,
          frontEnd.runs ⟨0⟩, (frontEnd.noticesOf ⟨0⟩).any Notice.isTerminal)) =
        [(true, true, false), (true, false, false)] := by
  decide +kernel

/-- Everything is quiet, but the first front end still runs the query, and nobody has
been told how it ended. -/
theorem left_running_fetchLost :
    (Runtime.start Engine.fetchRun Reduction.ampleDepth).Reaches fetchLost ∧
      fetchLost.IsQuiet ∧ fetchLost.hub.issued = [⟨0⟩] ∧
      (∃ frontEnd ∈ fetchLost.hub.frontEnds, frontEnd.runs ⟨0⟩ = true) ∧
      ∀ frontEnd ∈ fetchLost.hub.frontEnds, ∀ notice ∈ frontEnd.noticesOf ⟨0⟩,
      notice.isTerminal = false := by
  obtain ⟨ready, ends, still, issues, seen⟩ := evaluated_fetchLost
  have replaced : (Runtime.start Engine.fetchRun Reduction.ampleDepth).Reaches
      (fetchAsked.after (.spawn ⟨1⟩)) :=
    reaches_fetchAsked.move trivial
  have advanced : (fetched (fetchAsked.after (.spawn ⟨1⟩))).Permits (.advance 1) := ends
  have each {frontEnd : FrontEnd} (member : frontEnd ∈ fetchLost.hub.frontEnds) :
      (fetchLost.hub.scheduler.mailbox frontEnd.mailbox).events.isEmpty = true ∧
        (frontEnd.noticesOf ⟨0⟩).any Notice.isTerminal = false := by
    have among := List.mem_map_of_mem (f := fun frontEnd : FrontEnd =>
      ((fetchLost.hub.scheduler.mailbox frontEnd.mailbox).events.isEmpty, frontEnd.runs ⟨0⟩,
        (frontEnd.noticesOf ⟨0⟩).any Notice.isTerminal)) member
    rw [seen] at among
    rcases List.mem_cons.mp among with same | rest
    · obtain ⟨read, _, untold⟩ := (Prod.mk.inj same).imp id Prod.mk.inj
      exact ⟨read, untold⟩
    · obtain ⟨read, _, untold⟩ :=
        (Prod.mk.inj (List.mem_singleton.mp rest)).imp id Prod.mk.inj
      exact ⟨read, untold⟩
  have holds : (true, true, false) ∈ fetchLost.hub.frontEnds.map _ :=
    seen ▸ List.mem_cons_self
  obtain ⟨first, member, same⟩ := List.mem_map.mp holds
  refine ⟨(reaches_fetched replaced rfl ready).move advanced,
    ⟨still, fun frontEnd member => ?_⟩, issues, ⟨first, member,
    (Prod.mk.inj (Prod.mk.inj same).2).1⟩, fun frontEnd member notice told => ?_⟩
  · exact List.isEmpty_iff.mp (each member).1
  · simpa using List.any_eq_false.mp (each member).2 notice told

end Samples

end Runtime

end TicketFlow
