import TicketFlow.Proofs.Hub.Wakefulness
import TicketFlow.Proofs.Reduction.Confinement

namespace TicketFlow

/-! Front ends outlive their queries.

A query takes its front end with it only if its reduction does not come to an
end, or comes to a block id that leads nowhere.  A context without dangling block
ids never gets one: a pass makes none, and what is bound to a ticket names no
block.  Otherwise a front end ends by leaving, and nothing is delivered to it any
more.
-/

namespace Query

variable {query : Query} {depth : Nat} {scheduler : Scheduler}

/-- The context of the query has no dangling block ids, and no outputs can bring any. -/
structure Secure (query : Query) (scheduler : Scheduler) : Prop where
  closed : query.context.Closed
  blockless : scheduler.Stores fun term => term.blocks = []

theorem Secure.pass (secure : query.Secure scheduler) (depth : Nat) :
    (query.pass depth scheduler).2.1.Secure (query.pass depth scheduler).2.2 ∧
      ∀ reason, (query.pass depth scheduler).1 = .error reason → reason.IsInherent := by
  have confines : query.context.Confines depth scheduler query.consumer query.id :=
    secure.closed.confines Scheduler.blockless secure.blockless
  have served := query.context.serves_reduce depth scheduler query.consumer query.id
  exact ⟨⟨confines.closed, Scheduler.blockless.serves secure.blockless served⟩,
    confines.inherent⟩

/-- A step that comes to an end rejects such a query, or succeeds. -/
theorem Secure.step (secure : query.Secure scheduler) (depth : Nat) :
    (query.step depth scheduler).query.Secure (query.step depth scheduler).scheduler ∧
      ((query.step depth scheduler).ends = true →
        ∀ reason, (query.step depth scheduler).outcome = .error reason →
          ∃ error, reason = .rejected error) := by
  let holds (later : Query) (source : Scheduler) : Prop := later.Secure source
  have passed {later : Query} {source : Scheduler} (given : holds later source) :
      holds (later.pass depth source).2.1 (later.pass depth source).2.2 :=
      (given.pass depth).1
  have begins : holds query scheduler := secure
  refine ⟨step_keeps passed begins, fun ends reason failed => ?_⟩
  obtain ⟨_, same⟩ | ⟨last, source, given, same⟩ := step_cases passed begins
  · simp [same] at failed
  · rw [same] at ends failed
    cases reason with
    | rejected error => exact ⟨error, rfl⟩
    | fault fault =>
        obtain ⟨block, rfl⟩ := (given.pass depth).2 _ (settle_error failed) fault rfl
        simp [Stepped.ends, failed] at ends
    | exhausted => simp [Stepped.ends, failed] at ends

end Query

namespace FrontEnd

variable {frontEnd : FrontEnd} {scheduler : Scheduler} {depth : Nat} {query : Query}
  {id : QueryId} {notice : Notice} {event : QueryEvent}

/-- It ended without leaving: the scheduler would still deliver to the
mailbox that it let go of. -/
structure Crashed (frontEnd : FrontEnd) (scheduler : Scheduler) : Prop where
  stopped : frontEnd.isRunning = false
  address : scheduler.addresses.get? frontEnd.consumer = some frontEnd.mailbox

/-- The contexts of its queries have no dangling block ids. -/
def HoldsClosed (frontEnd : FrontEnd) : Prop :=
  ∀ ⦃id query⦄, frontEnd.queries.get? id = some query → query.context.Closed

theorem HoldsClosed.tell (holds : frontEnd.HoldsClosed) (id : QueryId) (notice : Notice) :
    (frontEnd.tell id notice).HoldsClosed :=
  fun _ _ found => holds (queries_tell ▸ found)

theorem HoldsClosed.conclude (holds : frontEnd.HoldsClosed)
    (scheduler : Scheduler) (id : QueryId) (notice : Notice) :
    (frontEnd.conclude scheduler id notice).1.HoldsClosed := by
  intro other query found
  rw [queries_conclude, OrderedMap.get?_erase] at found
  split at found
  next => cases found
  next => exact holds found

/-- A step that comes to an end leaves the front end running. -/
theorem HoldsClosed.step (holds : frontEnd.HoldsClosed) (secure : query.Secure scheduler)
    (ends : (query.step depth scheduler).ends = true) :
    (frontEnd.step depth scheduler query).1.HoldsClosed ∧
      (frontEnd.step depth scheduler query).1.isRunning = frontEnd.isRunning := by
  obtain ⟨after, sound⟩ := secure.step depth
  have updated : (frontEnd.updated depth scheduler query).HoldsClosed := by
    intro other held found
    rw [FrontEnd.updated, OrderedMap.get?_insert] at found
    split at found
    next => exact Option.some.inj found ▸ after.closed
    next => exact holds found
  rcases frontEnd.step_cases depth scheduler query with
    ⟨_, same⟩ | ⟨notice, _, _, same⟩ | ⟨reason, failed, unrejected, _⟩
  · rw [same]
    exact ⟨updated, rfl⟩
  · rw [same]
    exact ⟨updated.conclude _ _ _, isRunning_tell⟩
  · obtain ⟨error, rejected⟩ := sound ends reason failed
    exact absurd rejected (unrejected error)

theorem HoldsClosed.handle (holds : frontEnd.HoldsClosed)
    (blockless : scheduler.Stores fun term => term.blocks = [])
    (ends : ∀ query, frontEnd.queries.get? event.query = some query →
      scheduler.isQueueClear event.query = true → (query.step depth scheduler).ends = true) :
    (frontEnd.handle depth scheduler event).1.HoldsClosed ∧
      (frontEnd.handle depth scheduler event).1.isRunning = frontEnd.isRunning := by
  rcases frontEnd.handle_cases depth scheduler event with
    ⟨_, same⟩ | ⟨ticket, report, query, _, found, same⟩ | ⟨failure, _, _, same⟩ <;> rw [same]
  · exact ⟨holds, rfl⟩
  · have told := holds.tell event.query (.ticketFinished ticket report)
    split
    next clear =>
      obtain ⟨closed, running⟩ :=
        told.step ⟨holds found, blockless⟩ (ends query found clear)
      exact ⟨closed, running.trans isRunning_tell⟩
    next => exact ⟨told, isRunning_tell⟩
  · exact ⟨holds.conclude _ _ _, isRunning_tell⟩

end FrontEnd

namespace Scheduler

variable {scheduler after : Scheduler} {consumer : ConsumerId} {mailbox : MailboxId}
  {own : QueryId → Prop}

/-- A consumer that does not attach is reached where it was, if at all. -/
theorem address_of_act {act : Act} (attaches : act ≠ .attach consumer)
    (reached : (scheduler.act act).addresses.get? consumer = some mailbox) :
    scheduler.addresses.get? consumer = some mailbox := by
  by_cases leaves : act = .detach consumer
  · subst leaves
    have gone : (scheduler.act (.detach consumer)).addresses.get? consumer = none :=
      OrderedMap.get?_erase_self
    rw [gone] at reached
    cases reached
  · rwa [address_act attaches leaves] at reached

theorem address_of_leads {frontEnd became : FrontEnd}
    (leads : Leads (frontEnd.Does became own) scheduler after)
    (reached : after.addresses.get? consumer = some mailbox) :
    scheduler.addresses.get? consumer = some mailbox := by
  let holds (later : Scheduler) : Prop := later.addresses.get? consumer = some mailbox →
    scheduler.addresses.get? consumer = some mailbox
  have kept {later : Scheduler} {act : Act} (given : holds later)
      (does : frontEnd.Does became own later act) : holds (later.act act) :=
    fun reached => given (address_of_act (by rintro rfl; exact does) reached)
  have begins : holds scheduler := id
  exact leads.keeps kept begins reached

theorem address_of_reply {reply : Reply}
    (reached : (scheduler.reply reply).addresses.get? consumer = some mailbox) :
    scheduler.addresses.get? consumer = some mailbox := by
  let holds (later : Scheduler) : Prop := later.addresses.get? consumer = some mailbox →
    scheduler.addresses.get? consumer = some mailbox
  have detached {later : Scheduler} {other : ConsumerId} {id : MailboxId}
      (given : holds later) (_ : later.addresses.get? other = some id)
      (_ : (later.mailbox id).isHeld = false) : holds (later.detach other) :=
    fun reached =>
      given (@address_of_act later consumer mailbox (.detach other) (by simp) reached)
  have begins : holds { scheduler with table := (scheduler.table.reply reply).2 } := id
  rw [reply_eq] at reached
  exact foldl_deliver (fun given => given) detached begins reached

end Scheduler

namespace Hub

variable {hub after : Hub} {move : Move} {index depth : Nat}
  {frontEnd : FrontEnd} {run : RunId}

/-- What is submitted has no dangling block ids, what is replied names no blocks, and
reductions come to an end. -/
def Harmless (hub : Hub) : Move → Prop
  | .submit index id context =>
      context.Closed ∧ hub.terminates (.submit index id context) = true
  | .advance index => hub.terminates (.advance index) = true
  | .reply reply => reply.IsBlockless
  | .spawn _ | .shutdown _ | .closeNotices _ | .take => True

/-- The hubs that harmless moves lead to. -/
inductive ReachesSafely (start : Hub) : Hub → Prop where
  | start : ReachesSafely start start
  | play {hub : Hub} {move : Move} :
      ReachesSafely start hub → hub.Harmless move → ReachesSafely start (hub.play move)

theorem ReachesSafely.reaches {start : Hub} (reached : start.ReachesSafely hub) :
    start.Reaches hub := by
  induction reached with
  | start => exact .start
  | play _ _ ih => exact ih.play

/-- The front ends hold closed contexts, and none has crashed. -/
structure Unharmed (hub : Hub) : Prop where
  blockless : hub.scheduler.Stores fun term => term.blocks = []
  closed : ∀ {index : Nat} {frontEnd : FrontEnd}, hub.frontEnds[index]? = some frontEnd →
    frontEnd.HoldsClosed
  uncrashed :
    ∀ {index : Nat} {frontEnd : FrontEnd}, hub.frontEnds[index]? = some frontEnd →
    ¬frontEnd.Crashed hub.scheduler

theorem unharmed_begin (run : RunId) (depth : Nat) : (Hub.begin run depth).Unharmed where
  blockless _ _ stored := by simp [begin, Scheduler.start] at stored
  closed found := by simp [begin] at found
  uncrashed found := by simp [begin] at found

/-- A front end that acts holds closed contexts then, and goes on or leaves. -/
theorem Unharmed.acted (unharmed : hub.Unharmed) (kept : hub.Kept) {issued : List QueryId}
    {own : QueryId → Prop} {acted : FrontEnd × Scheduler}
    (acts : frontEnd.Acted issued own hub.scheduler acted) (closed : acted.1.HoldsClosed)
    (goes : acted.1.isRunning = true ∨ acted.2.addresses.get? frontEnd.consumer = none)
    (scheduler : after.scheduler = acted.2)
    (frontEnds : after.frontEnds = hub.frontEnds.set index acted.1) : after.Unharmed where
  blockless := by
    rw [scheduler]
    exact unharmed.blockless.leads acts.leads kept.enrolled.consistent
  closed found := by
    rw [frontEnds] at found
    rcases getElem?_set_cases found with ⟨_, rfl⟩ | ⟨_, before⟩
    · exact closed
    · exact unharmed.closed before
  uncrashed found := by
    rintro ⟨stopped, address⟩
    rw [scheduler] at address
    rw [frontEnds] at found
    rcases getElem?_set_cases found with ⟨_, rfl⟩ | ⟨_, before⟩
    · rcases goes with still | gone
      · simp [still] at stopped
      · rw [acts.consumer, gone] at address
        cases address
    · exact unharmed.uncrashed before ⟨stopped, Scheduler.address_of_leads acts.leads address⟩

/-- Nobody acts; at most, nobody listens any more. -/
theorem Unharmed.passive (unharmed : hub.Unharmed)
    (blockless : after.scheduler.Stores fun term => term.blocks = [])
    (addresses : ∀ {consumer mailbox}, after.scheduler.addresses.get? consumer =
      some mailbox → hub.scheduler.addresses.get? consumer = some mailbox)
    (same : ∀ {index : Nat} {frontEnd : FrontEnd}, after.frontEnds[index]? =
      some frontEnd → ∃ isHeard, hub.frontEnds[index]? = some { frontEnd with isHeard }) :
    after.Unharmed where
  blockless := blockless
  closed found := by
    obtain ⟨isHeard, before⟩ := same found
    exact fun _ _ held => unharmed.closed before held
  uncrashed found := by
    rintro ⟨stopped, address⟩
    obtain ⟨isHeard, before⟩ := same found
    exact unharmed.uncrashed before ⟨stopped, addresses address⟩

theorem Unharmed.take (unharmed : hub.Unharmed) (kept : hub.Kept) (mailbox : MailboxId) :
    ({ hub with scheduler := hub.scheduler.act (.take mailbox) } : Hub).Unharmed :=
  unharmed.passive
    (fun _ _ stored =>
      unharmed.blockless (Scheduler.results_act kept.enrolled.consistent ▸ stored))
    (Scheduler.address_of_act (by simp))
    fun {_ frontEnd} found => ⟨frontEnd.isHeard, found⟩

/-- A new front end has a mailbox that no other had. -/
theorem Unharmed.spawned (unharmed : hub.Unharmed)
    (kept : hub.Kept) {consumer : ConsumerId}
    (scheduler : after.scheduler = (hub.scheduler.attach consumer).2)
    (frontEnds : after.frontEnds =
      hub.frontEnds ++ [{ consumer, mailbox := (hub.scheduler.attach consumer).1 }]) :
    after.Unharmed where
  blockless := by
    rw [scheduler]
    exact unharmed.blockless
  closed found := by
    rw [frontEnds] at found
    rcases getElem?_append_cases found with ⟨_, rfl⟩ | before
    · exact fun _ _ held => nomatch held
    · exact unharmed.closed before
  uncrashed {other another} found := by
    rintro ⟨stopped, address⟩
    rw [frontEnds] at found
    rcases getElem?_append_cases found with ⟨_, rfl⟩ | before
    · cases stopped
    · by_cases same : consumer = another.consumer
      · subst same
        have seat : after.scheduler.addresses.get? another.consumer =
            some (hub.scheduler.attach another.consumer).1 := by
          rw [scheduler]
          exact OrderedMap.get?_insert_self
        have boxed := kept.boxed before
        rw [← Option.some.inj (seat.symm.trans address)] at boxed
        exact Nat.lt_irrefl _ boxed
      · rw [scheduler] at address
        refine unharmed.uncrashed before ⟨stopped, ?_⟩
        exact @Scheduler.address_of_act hub.scheduler another.consumer another.mailbox
          (.attach consumer) (by simp [same]) address

/-- Harmless moves leave the hub unharmed. -/
theorem Unharmed.play (unharmed : hub.Unharmed) (kept : hub.Kept)
    (harmless : hub.Harmless move) : (hub.play move).Unharmed := by
  cases hub.played move with
  | nothing scheduler frontEnds _ =>
      exact unharmed.passive (scheduler ▸ unharmed.blockless)
        (fun reached => scheduler ▸ reached)
        fun {_ frontEnd} found => ⟨frontEnd.isHeard, frontEnds ▸ found⟩
  | spawned scheduler frontEnds _ => exact unharmed.spawned kept scheduler frontEnds
  | submitted is fresh running scheduler frontEnds _ =>
      subst is
      obtain ⟨here, goes⟩ := running?_eq_some running
      obtain ⟨context, terminates⟩ := harmless
      obtain ⟨closed, still⟩ := (unharmed.closed here).step ⟨context, unharmed.blockless⟩
        (ends_of_new running fresh terminates)
      exact unharmed.acted kept ((kept.orderly here).submit goes fresh _) closed
        (.inl (still.trans goes)) scheduler frontEnds
  | @handled _ another event _ is running taken scheduler frontEnds _ =>
      subst is
      obtain ⟨here, goes⟩ := running?_eq_some running
      have ends {query : Query} (held : another.queries.get? event.query = some query) :=
        fun clear => ends_of_read running taken held clear harmless
      obtain ⟨_, rfl⟩ := Scheduler.takeEvent?_eq_some taken
      have taking := unharmed.take kept another.mailbox
      obtain ⟨closed, still⟩ :=
        (unharmed.closed here).handle taking.blockless fun _ => ends
      exact taking.acted (kept.take _) ((kept.orderly here).handled _) closed
        (.inl (still.trans goes)) scheduler frontEnds
  | @stopped _ another _ running scheduler frontEnds _ =>
      have here := (running?_eq_some running).1
      refine unharmed.acted kept (kept.orderly here).stopped_acts
        (fun _ _ held => nomatch held) (.inr ?_) scheduler frontEnds
      exact OrderedMap.get?_erase_self
  | @unheard other _ scheduler frontEnds _ =>
      refine unharmed.passive (scheduler ▸ unharmed.blockless)
        (fun reached => scheduler ▸ reached) fun {index frontEnd} found => ?_
      rw [frontEnds, List.getElem?_modify] at found
      obtain ⟨before, here, rfl⟩ := Option.map_eq_some_iff.mp found
      split
      · exact ⟨before.isHeard, here⟩
      · exact ⟨before.isHeard, here⟩
  | took _ scheduler frontEnds _ =>
      refine unharmed.passive ?_ (fun reached => by rwa [scheduler] at reached)
        fun {_ frontEnd} found => ⟨frontEnd.isHeard, frontEnds ▸ found⟩
      rw [scheduler]
      exact unharmed.blockless
  | @replied reply is scheduler frontEnds _ =>
      subst is
      refine unharmed.passive ?_
        (fun reached => Scheduler.address_of_reply (scheduler ▸ reached))
        fun {_ frontEnd} found => ⟨frontEnd.isHeard, frontEnds ▸ found⟩
      rw [scheduler]
      refine unharmed.blockless.replied kept.enrolled.consistent fun same => ?_
      subst same
      exact harmless

theorem ReachesSafely.unharmed (reached : (Hub.begin run depth).ReachesSafely hub) :
    hub.Unharmed := by
  induction reached with
  | start => exact unharmed_begin run depth
  | play reached harmless ih => exact ih.play reached.reaches.kept harmless

end Hub

end TicketFlow
