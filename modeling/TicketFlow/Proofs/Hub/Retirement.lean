import TicketFlow.Proofs.Hub.Quiescence
import TicketFlow.Proofs.Hub.Survival
import TicketFlow.Proofs.Schedule.Traces

namespace TicketFlow

/-! A query that is retired leaves no trace.

Whatever the scheduler remembers, it remembers of queries that some front end
runs.  Once a front end has told how a query ended, or has been shut down, nobody
runs the query, nothing in the table is about it, and no event about it is
delivered any more, whatever replies its tickets still get.

A front end that crashed with a query cannot leave the scheduler.  What it ran is
remembered until the scheduler has something to deliver to it.
-/

namespace FrontEnd

variable {frontEnd : FrontEnd} {scheduler : Scheduler} {depth : Nat} {query : Query}
  {id other : QueryId} {notice given : Notice} {issued : List QueryId}

/-- By acting, a front end that goes on gives up only queries that its consumer does not
track any more, and it ends only such queries. -/
structure Yields (own : QueryId → Prop) (frontEnd : FrontEnd)
    (acted : FrontEnd × Scheduler) : Prop where
  keeps : ∀ {id}, own id → id ∈ acted.2.table.trackedBy frontEnd.consumer →
    acted.1.runs id = true ∨ acted.1.isRunning = false
  ends : ∀ {id notice}, (id, notice) ∈ acted.1.notices → notice.isTerminal = true →
    (id, notice) ∈ frontEnd.notices ∨ own id ∧ id ∉ acted.2.table.trackedBy frontEnd.consumer

theorem yields_conclude (frontEnd : FrontEnd)
    (scheduler : Scheduler) (id : QueryId) (notice : Notice) :
    frontEnd.Yields (fun other => frontEnd.runs other = true ∨ other = id)
      (frontEnd.conclude scheduler id notice) := by
  have released :
      id ∉ (frontEnd.conclude scheduler id notice).2.table.trackedBy frontEnd.consumer :=
    @Scheduler.untracked_act scheduler id frontEnd.consumer _ (.inl rfl)
  exact
    { keeps := by
        intro other owned tracked
        have apart : other ≠ id := fun same => released (same ▸ tracked)
        exact .inl (by simp [runs_concluded, owned.resolve_right apart, apart])
      ends := by
        intro other given told _
        rcases mem_notices_conclude told with before | ⟨rfl, _⟩
        · exact .inl before
        · exact .inr ⟨.inr rfl, released⟩ }

theorem yields_step (frontEnd : FrontEnd) (depth : Nat)
    (scheduler : Scheduler) (query : Query) :
    frontEnd.Yields (fun other => frontEnd.runs other = true ∨ other = query.id)
      (frontEnd.step depth scheduler query) := by
  have held {other : QueryId} (owned : frontEnd.runs other = true ∨ other = query.id) :
      (frontEnd.updated depth scheduler query).runs other = true := by
    simpa [runs_updated] using owned
  rcases frontEnd.step_cases depth scheduler query with
      ⟨_, ends⟩ | ⟨notice, _, _, ends⟩ | ⟨_, _, _, ends⟩ <;> rw [ends]
  · exact ⟨fun owned _ => .inl (held owned), fun told _ => .inl told⟩
  · have concluded := (frontEnd.updated depth scheduler query).yields_conclude
      (query.step depth scheduler).scheduler query.id notice
    refine ⟨fun owned => concluded.keeps (.inl (held owned)), fun told terminal => ?_⟩
    refine (concluded.ends told terminal).imp_right fun ⟨owned, untracked⟩ => ⟨?_, untracked⟩
    rcases owned with runs | same
    · simpa [runs_updated] using runs
    · exact .inr same
  · exact ⟨fun _ _ => .inr rfl, fun told _ => .inl told⟩

theorem yields_submit (frontEnd : FrontEnd) (depth : Nat)
    (scheduler : Scheduler) (id : QueryId) (context : Context) :
    frontEnd.Yields (fun other => frontEnd.runs other = true ∨ other = id)
      (frontEnd.submit depth scheduler id context) :=
  frontEnd.yields_step depth scheduler { id, consumer := frontEnd.consumer, context }

theorem Orderly.yields_handle (orderly : frontEnd.Orderly issued) (event : QueryEvent) :
    frontEnd.Yields (fun other => frontEnd.runs other = true)
      (frontEnd.handle depth scheduler event) := by
  rcases frontEnd.handle_cases depth scheduler event with
    ⟨_, same⟩ | ⟨ticket, report, query, _, found, same⟩ | ⟨failure, _, held, same⟩ <;>
      rw [same]
  · exact ⟨fun owned _ => .inl owned, fun told _ => .inl told⟩
  · have held : frontEnd.runs query.id = true := by
      rw [(orderly.keyed found).1]
      exact runs_of_get? found
    have progress {other : QueryId} {given : Notice}
        (told : (other, given) ∈
          (frontEnd.tell event.query (.ticketFinished ticket report)).notices)
        (terminal : given.isTerminal = true) : (other, given) ∈ frontEnd.notices := by
      rcases mem_notices_tell told with before | ⟨_, rfl⟩
      · exact before
      · cases terminal
    split
    · have stepped :=
        (frontEnd.tell event.query (.ticketFinished ticket report)).yields_step
          depth scheduler query
      simp only [runs_tell] at stepped
      refine ⟨fun owned tracked => stepped.keeps (.inl owned) (by rwa [consumer_tell]),
        fun told terminal => ?_⟩
      rcases stepped.ends told terminal with before | ⟨owned, untracked⟩
      · exact .inl (progress before terminal)
      · rw [consumer_tell] at untracked
        exact .inr ⟨owned.elim id fun same => same ▸ held, untracked⟩
    · exact ⟨fun owned _ => .inl (runs_tell.trans owned),
        fun told terminal => .inl (progress told terminal)⟩
  · have concluded :=
      frontEnd.yields_conclude scheduler event.query (.queryFailed failure)
    refine ⟨fun owned => concluded.keeps (.inl owned), fun told terminal => ?_⟩
    refine (concluded.ends told terminal).imp_right fun ⟨owned, untracked⟩ => ⟨?_, untracked⟩
    exact owned.elim id fun same => same ▸ held

theorem yields_stop {own : QueryId → Prop} :
    frontEnd.Yields own (frontEnd.stop scheduler) :=
  ⟨fun _ _ => .inr rfl, fun told _ => .inl told⟩

end FrontEnd

namespace Hub

/-- Nobody runs the query, and nothing in the table is about it. -/
structure Forgets (hub : Hub) (id : QueryId) : Prop where
  unmentioned : ¬hub.scheduler.table.Mentions id
  idle : ∀ frontEnd ∈ hub.frontEnds, frontEnd.runs id = false

/-- The scheduler remembers queries that are run, each for one consumer, and those of
front ends that ended. -/
structure Tidy (hub : Hub) : Prop where
  scheduler : hub.scheduler.Tidy
  addressed :
    ∀ {consumer mailbox}, hub.scheduler.addresses.get? consumer = some mailbox →
    ∃ (index : Nat) (frontEnd : FrontEnd), hub.frontEnds[index]? = some frontEnd ∧
    frontEnd.consumer = consumer ∧
    frontEnd.mailbox = mailbox
  single : ∀ {id first second}, id ∈ hub.scheduler.table.trackedBy first →
    id ∈ hub.scheduler.table.trackedBy second → first = second
  backed : ∀ {consumer id}, id ∈ hub.scheduler.table.trackedBy consumer →
    ∃ (index : Nat) (frontEnd : FrontEnd), hub.frontEnds[index]? = some frontEnd ∧
      frontEnd.consumer = consumer ∧ (frontEnd.runs id = true ∨ frontEnd.isRunning = false)

variable {hub after later : Hub} {index depth : Nat} {frontEnd : FrontEnd} {id : QueryId}
  {notice : Notice} {run : RunId}

theorem tidy_begin (run : RunId) (depth : Nat) : (Hub.begin run depth).Tidy where
  scheduler := Scheduler.tidy_start run
  addressed reached := by simp [begin, Scheduler.start] at reached
  single tracked := by simp [begin, Scheduler.start, TicketTable.trackedBy] at tracked
  backed tracked := by simp [begin, Scheduler.start, TicketTable.trackedBy] at tracked

theorem Tidy.take (tidy : hub.Tidy) (mailbox : MailboxId) :
    ({ hub with scheduler := hub.scheduler.act (.take mailbox) } : Hub).Tidy where
  scheduler := tidy.scheduler.act (.take mailbox)
  addressed reached := tidy.addressed (Scheduler.address_of_act (by simp) reached)
  single first second := by
    rw [(hub.scheduler.untouched_take mailbox).2] at first second
    exact tidy.single first second
  backed tracked := by
    rw [(hub.scheduler.untouched_take mailbox).2] at tracked
    exact tidy.backed tracked

/-- A front end acts for its own queries, and yields those that it gives up. -/
theorem Tidy.acted (tidy : hub.Tidy) (kept : hub.Kept) {issued : List QueryId}
    {own : QueryId → Prop} {acted : FrontEnd × Scheduler}
    (running : hub.running? index = some frontEnd)
    (acts : frontEnd.Acted issued own hub.scheduler acted)
    (yields : frontEnd.Yields own acted) (held : ∀ {id}, frontEnd.runs id = true → own id)
    (ours : ∀ {id}, own id → frontEnd.runs id = true ∨ id ∉ hub.issued)
    (scheduler : after.scheduler = acted.2)
    (frontEnds : after.frontEnds = hub.frontEnds.set index acted.1) : after.Tidy := by
  obtain ⟨here, goes⟩ := running?_eq_some running
  obtain ⟨became, others⟩ := frontEnds_acted here frontEnds
  have alone {id : QueryId} {consumer : ConsumerId} (owned : own id)
      (tracked : id ∈ hub.scheduler.table.trackedBy consumer) :
        consumer = frontEnd.consumer := by
    rcases ours owned with runs | new
    · exact kept.owned here runs tracked
    · exact absurd (kept.enrolled.tracked tracked) new
  exact
    { scheduler := scheduler ▸ tidy.scheduler.leads acts.leads
      addressed := by
        intro consumer mailbox reached
        rw [scheduler] at reached
        obtain ⟨other, another, found, ofConsumer, ofMailbox⟩ :=
          tidy.addressed (Scheduler.address_of_leads acts.leads reached)
        by_cases same : index = other
        · subst same
          obtain rfl := Option.some.inj (here.symm.trans found)
          exact ⟨index, acted.1, became, acts.consumer.trans ofConsumer,
            acts.mailbox.trans ofMailbox⟩
        · exact ⟨other, another, (others same).trans found, ofConsumer, ofMailbox⟩
      single := by
        intro id first second left right
        rw [scheduler] at left right
        rcases Scheduler.trackedBy_of_leads acts.leads left with left | ⟨rfl, owned⟩ <;>
          rcases Scheduler.trackedBy_of_leads acts.leads right with right | ⟨rfl, owned'⟩
        · exact tidy.single left right
        · exact alone owned' left
        · exact (alone owned right).symm
        · rfl
      backed := by
        intro consumer id tracked
        rw [scheduler] at tracked
        rcases Scheduler.trackedBy_of_leads acts.leads tracked with before | ⟨rfl, owned⟩
        · obtain ⟨other, another, found, rfl, run⟩ := tidy.backed before
          by_cases same : index = other
          · subst same
            obtain rfl := Option.some.inj (here.symm.trans found)
            have runs := run.resolve_right (by simp [goes])
            exact ⟨index, acted.1, became, acts.consumer, yields.keeps (held runs) tracked⟩
          · exact ⟨other, another, (others same).trans found, rfl, run⟩
        · exact ⟨index, acted.1, became, acts.consumer, yields.keeps owned tracked⟩ }

/-- Nobody acts; at most, nobody listens any more. -/
theorem Tidy.passive (tidy : hub.Tidy) (scheduled : after.scheduler.Tidy)
    (addresses : ∀ {consumer mailbox}, after.scheduler.addresses.get? consumer =
      some mailbox → hub.scheduler.addresses.get? consumer = some mailbox)
    (tracks : ∀ {consumer query}, query ∈ after.scheduler.table.trackedBy consumer →
      query ∈ hub.scheduler.table.trackedBy consumer)
    (same : ∀ {index : Nat} {frontEnd : FrontEnd}, hub.frontEnds[index]? = some frontEnd →
      ∃ isHeard, after.frontEnds[index]? = some { frontEnd with isHeard }) :
    after.Tidy where
  scheduler := scheduled
  addressed reached := by
    obtain ⟨index, frontEnd, found, ofConsumer, ofMailbox⟩ :=
      tidy.addressed (addresses reached)
    obtain ⟨_, stayed⟩ := same found
    exact ⟨index, _, stayed, ofConsumer, ofMailbox⟩
  single first second := tidy.single (tracks first) (tracks second)
  backed tracked := by
    obtain ⟨index, frontEnd, found, ofConsumer, run⟩ := tidy.backed (tracks tracked)
    obtain ⟨_, stayed⟩ := same found
    exact ⟨index, _, stayed, ofConsumer, run⟩

theorem Tidy.spawned (tidy : hub.Tidy) {consumer : ConsumerId}
    (scheduler : after.scheduler = (hub.scheduler.attach consumer).2)
    (frontEnds : after.frontEnds =
      hub.frontEnds ++ [{ consumer, mailbox := (hub.scheduler.attach consumer).1 }]) :
    after.Tidy := by
  have stays {index : Nat} {frontEnd : FrontEnd}
      (found : hub.frontEnds[index]? = some frontEnd) :
      after.frontEnds[index]? = some frontEnd := by
    rw [frontEnds,
      List.getElem?_append_left (List.getElem?_eq_some_iff.mp found).1, found]
  have table : after.scheduler.table = hub.scheduler.table := scheduler ▸ rfl
  exact
    { scheduler := scheduler ▸ tidy.scheduler.act (.attach consumer)
      addressed := by
        intro other mailbox reached
        by_cases same : consumer = other
        · subst same
          have address : after.scheduler.addresses.get? consumer =
              some (hub.scheduler.attach consumer).1 := by
            rw [scheduler]
            exact OrderedMap.get?_insert_self
          obtain rfl := Option.some.inj (address.symm.trans reached)
          exact ⟨hub.frontEnds.length, _,
            by rw [frontEnds, List.getElem?_concat_length], rfl, rfl⟩
        · rw [scheduler] at reached
          obtain ⟨index, frontEnd, found, named⟩ :=
            tidy.addressed (@Scheduler.address_of_act hub.scheduler other mailbox
              (.attach consumer) (by simp [same]) reached)
          exact ⟨index, frontEnd, stays found, named⟩
      single := by
        rw [table]
        exact tidy.single
      backed := by
        intro other id tracked
        rw [table] at tracked
        obtain ⟨index, frontEnd, found, run⟩ := tidy.backed tracked
        exact ⟨index, frontEnd, stays found, run⟩ }

/-- Every move leaves the hub tidy. -/
theorem Tidy.play (tidy : hub.Tidy) (kept : hub.Kept) (move : Move) :
    (hub.play move).Tidy := by
  cases hub.played move with
  | nothing scheduler frontEnds _ =>
      exact tidy.passive (scheduler ▸ tidy.scheduler)
        (fun reached => scheduler ▸ reached) (fun tracked => scheduler ▸ tracked)
        fun {_ frontEnd} found => ⟨frontEnd.isHeard, frontEnds ▸ found⟩
  | spawned scheduler frontEnds _ => exact tidy.spawned scheduler frontEnds
  | submitted _ fresh running scheduler frontEnds _ =>
      obtain ⟨here, goes⟩ := running?_eq_some running
      exact tidy.acted kept running ((kept.orderly here).submit goes fresh _)
        (FrontEnd.yields_submit _ _ _ _ _) .inl
        (Or.imp_right fun new => new ▸ fresh) scheduler frontEnds
  | handled _ running taken scheduler frontEnds _ =>
      obtain ⟨_, rfl⟩ := Scheduler.takeEvent?_eq_some taken
      have orderly := kept.orderly (running?_eq_some running).1
      exact (tidy.take _).acted (kept.take _) running (orderly.handled _)
        (orderly.yields_handle _) id .inl scheduler frontEnds
  | stopped _ running scheduler frontEnds _ =>
      have orderly := kept.orderly (running?_eq_some running).1
      exact tidy.acted kept running orderly.stopped_acts FrontEnd.yields_stop id .inl
        scheduler frontEnds
  | @unheard other _ scheduler frontEnds _ =>
      refine tidy.passive (scheduler ▸ tidy.scheduler) (fun reached => scheduler ▸ reached)
        (fun tracked => scheduler ▸ tracked) fun {index frontEnd} found => ?_
      rw [frontEnds, List.getElem?_modify, found]
      by_cases same : other = index
      · exact ⟨false, by simp [same]⟩
      · exact ⟨frontEnd.isHeard, by simp [same]⟩
  | took _ scheduler frontEnds _ =>
      refine tidy.passive ?_ (fun reached => by rwa [scheduler] at reached)
        (fun tracked => by rwa [scheduler] at tracked)
        fun {_ frontEnd} found => ⟨frontEnd.isHeard, frontEnds ▸ found⟩
      rw [scheduler]
      exact ⟨tidy.scheduler.consistent, tidy.scheduler.listed, tidy.scheduler.attached⟩
  | @replied reply _ scheduler frontEnds _ =>
      refine tidy.passive (scheduler ▸ tidy.scheduler.reply reply) (fun reached => ?_)
        (fun tracked => ?_) fun {_ frontEnd} found => ⟨frontEnd.isHeard, frontEnds ▸ found⟩
      · exact Scheduler.address_of_reply (scheduler ▸ reached)
      · exact (Scheduler.of_reply kept.enrolled.consistent reply).1 (scheduler ▸ tracked)

theorem Reaches.tidy (reached : (Hub.begin run depth).Reaches hub) : hub.Tidy := by
  induction reached with
  | start => exact tidy_begin run _
  | play reached ih => exact ih.play reached.kept _

/-- What nobody tracks is not mentioned. -/
theorem Tidy.forgets (tidy : hub.Tidy)
    (untracked : ∀ consumer, id ∉ hub.scheduler.table.trackedBy consumer)
    (idle : ∀ {index : Nat} {frontEnd : FrontEnd}, hub.frontEnds[index]? = some frontEnd →
      frontEnd.runs id = false) : hub.Forgets id where
  unmentioned mentions := by
    obtain ⟨consumer, tracked⟩ :=
      tidy.scheduler.consistent.trackedBy_of_mentions tidy.scheduler.listed mentions
    exact untracked consumer tracked
  idle frontEnd member := by
    obtain ⟨index, found⟩ := List.mem_iff_getElem?.mp member
    exact idle found

theorem Forgets.untracked (forgets : hub.Forgets id) (consumer : ConsumerId) :
    id ∉ hub.scheduler.table.trackedBy consumer :=
  fun tracked => forgets.unmentioned (.tracked tracked)

section Forgotten

theorem Forgets.idle_at (forgets : hub.Forgets id)
    (found : hub.frontEnds[index]? = some frontEnd) : frontEnd.runs id = false :=
  forgets.idle frontEnd (List.mem_of_getElem? found)

/-- It stays forgotten while a front end acts for other queries. -/
theorem Forgets.acted (forgets : hub.Forgets id) (tidied : after.Tidy)
    {issued : List QueryId} {own : QueryId → Prop} {source : Scheduler}
    {acted : FrontEnd × Scheduler} (table : source.table = hub.scheduler.table)
    (acts : frontEnd.Acted issued own source acted)
    (foreign : ¬own id) (scheduler : after.scheduler = acted.2)
    (frontEnds : after.frontEnds = hub.frontEnds.set index acted.1) :
    after.Forgets id := by
  refine tidied.forgets (fun consumer tracked => ?_) fun {other another} found => ?_
  · rw [scheduler] at tracked
    rcases Scheduler.trackedBy_of_leads acts.leads tracked with before | ⟨_, owned⟩
    · exact forgets.untracked consumer (table ▸ before)
    · exact foreign owned
  · rw [frontEnds] at found
    rcases getElem?_set_cases found with ⟨_, rfl⟩ | ⟨_, before⟩
    · by_contra runs
      exact foreign (acts.runs (by simpa using runs))
    · exact forgets.idle_at before

/-- Nobody makes a query its own that is forgotten. -/
theorem Forgets.play (forgets : hub.Forgets id) (kept : hub.Kept) (tidy : hub.Tidy)
    (known : id ∈ hub.issued) (move : Move) : (hub.play move).Forgets id := by
  have tidied := tidy.play kept move
  have unowned {index : Nat} {frontEnd : FrontEnd}
      (found : hub.frontEnds[index]? = some frontEnd) : ¬frontEnd.runs id = true := by
    simp [forgets.idle_at found]
  cases hub.played move with
  | nothing scheduler frontEnds _ =>
      exact tidied.forgets (scheduler ▸ forgets.untracked)
        fun found => forgets.idle_at (frontEnds ▸ found)
  | spawned scheduler frontEnds _ =>
      refine tidied.forgets (fun consumer tracked => ?_) fun {other another} found => ?_
      · rw [scheduler] at tracked
        exact forgets.untracked consumer tracked
      · rw [frontEnds] at found
        rcases getElem?_append_cases found with ⟨_, rfl⟩ | before
        · rfl
        · exact forgets.idle_at before
  | submitted _ fresh running scheduler frontEnds _ =>
      obtain ⟨here, goes⟩ := running?_eq_some running
      refine forgets.acted tidied rfl ((kept.orderly here).submit goes fresh _) ?_
        scheduler frontEnds
      rintro (runs | rfl)
      · exact unowned here runs
      · exact fresh known
  | @handled _ another _ _ _ running taken scheduler frontEnds _ =>
      obtain ⟨_, rfl⟩ := Scheduler.takeEvent?_eq_some taken
      have here := (running?_eq_some running).1
      exact forgets.acted tidied (hub.scheduler.untouched_take another.mailbox).2
        ((kept.orderly here).handled _) (unowned here) scheduler frontEnds
  | stopped _ running scheduler frontEnds _ =>
      have here := (running?_eq_some running).1
      exact forgets.acted tidied rfl (kept.orderly here).stopped_acts
        (unowned here) scheduler frontEnds
  | unheard _ scheduler frontEnds _ =>
      refine tidied.forgets (scheduler ▸ forgets.untracked) fun {other another} found => ?_
      rw [frontEnds, List.getElem?_modify] at found
      obtain ⟨before, here, rfl⟩ := Option.map_eq_some_iff.mp found
      have unchanged := forgets.idle_at here
      split
      · exact unchanged
      · exact unchanged
  | took _ scheduler frontEnds _ =>
      exact tidied.forgets (by rw [scheduler]; exact forgets.untracked)
        fun found => forgets.idle_at (frontEnds ▸ found)
  | @replied reply _ scheduler frontEnds _ =>
      refine tidied.forgets (fun consumer tracked => ?_)
        fun found => forgets.idle_at (frontEnds ▸ found)
      rw [scheduler] at tracked
      exact forgets.untracked consumer
        ((Scheduler.of_reply kept.enrolled.consistent reply).1 tracked)

/-- After a front end has acted, a query of its own is forgotten that it does not run any
more, if its consumer does not track it any more. -/
theorem Kept.forgets_acted (kept : hub.Kept) {issued : List QueryId}
    {own : QueryId → Prop} {acted : FrontEnd × Scheduler}
    (here : hub.frontEnds[index]? = some frontEnd)
    (acts : frontEnd.Acted issued own hub.scheduler acted)
    (ours : ∀ {id}, own id → frontEnd.runs id = true ∨ id ∉ hub.issued)
    (owned : own id) (dropped : acted.1.runs id = false)
    (released : id ∉ acted.2.table.trackedBy frontEnd.consumer)
    (scheduler : after.scheduler = acted.2)
    (frontEnds : after.frontEnds = hub.frontEnds.set index acted.1)
    (tidied : after.Tidy) : after.Forgets id := by
  refine tidied.forgets (fun consumer tracked => ?_) fun {other another} found => ?_
  · rw [scheduler] at tracked
    rcases Scheduler.trackedBy_of_leads acts.leads tracked with before | ⟨rfl, _⟩
    · rcases ours owned with runs | new
      · exact released (kept.owned here runs before ▸ tracked)
      · exact new (kept.enrolled.tracked before)
    · exact released tracked
  · rw [frontEnds] at found
    rcases getElem?_set_cases found with ⟨_, rfl⟩ | ⟨apart, before⟩
    · exact dropped
    · by_contra held
      have held : another.runs id = true := by simpa using held
      rcases ours owned with runs | new
      · exact apart (kept.sole before here held runs)
      · exact new ((kept.orderly before).enrolled held)

/-- What is told about the end of a query once a front end has acted was told before, or
the query is forgotten. -/
theorem Kept.forgets_yielded (kept : hub.Kept) {other : Nat} {issued : List QueryId}
    {another : FrontEnd} {own : QueryId → Prop} {acted : FrontEnd × Scheduler}
    (here : hub.frontEnds[other]? = some another)
    (acts : another.Acted issued own hub.scheduler acted)
    (yields : another.Yields own acted)
    (ours : ∀ {id}, own id → another.runs id = true ∨ id ∉ hub.issued)
    (scheduler : after.scheduler = acted.2)
    (frontEnds : after.frontEnds = hub.frontEnds.set other acted.1)
    (tidied : after.Tidy) (stayed : after.frontEnds[index]? = some frontEnd)
    (told : (id, notice) ∈ frontEnd.notices) (terminal : notice.isTerminal = true) :
    (∃ before, hub.frontEnds[index]? = some before ∧ (id, notice) ∈ before.notices) ∨
      after.Forgets id := by
  rw [frontEnds] at stayed
  rcases getElem?_set_cases stayed with ⟨rfl, rfl⟩ | ⟨_, before⟩
  · rcases yields.ends told terminal with before | ⟨owned, released⟩
    · exact .inl ⟨another, here, before⟩
    · have dropped := acts.orderly.concluded told terminal
      exact .inr
        (kept.forgets_acted here acts ours owned dropped released scheduler frontEnds tidied)
  · exact .inl ⟨frontEnd, before, told⟩

/-- What is told about the end of a query was told before the move, or the
query is forgotten by it. -/
theorem Kept.forgets_told (kept : hub.Kept) (tidy : hub.Tidy) (move : Move)
    (stayed : (hub.play move).frontEnds[index]? = some frontEnd)
    (told : (id, notice) ∈ frontEnd.notices) (terminal : notice.isTerminal = true) :
    (∃ before, hub.frontEnds[index]? = some before ∧ (id, notice) ∈ before.notices) ∨
      (hub.play move).Forgets id := by
  have tidied := tidy.play kept move
  cases hub.played move with
  | nothing _ frontEnds _ => exact .inl ⟨frontEnd, frontEnds ▸ stayed, told⟩
  | spawned _ frontEnds _ =>
      rw [frontEnds] at stayed
      rcases getElem?_append_cases stayed with ⟨_, rfl⟩ | before
      · simp at told
      · exact .inl ⟨frontEnd, before, told⟩
  | submitted _ fresh running scheduler frontEnds _ =>
      obtain ⟨here, goes⟩ := running?_eq_some running
      exact kept.forgets_yielded here ((kept.orderly here).submit goes fresh _)
        (FrontEnd.yields_submit _ _ _ _ _) (Or.imp_right fun new => new ▸ fresh) scheduler
        frontEnds tidied stayed told terminal
  | @handled _ another _ _ _ running taken scheduler frontEnds _ =>
      obtain ⟨_, rfl⟩ := Scheduler.takeEvent?_eq_some taken
      have here := (running?_eq_some running).1
      have orderly := kept.orderly here
      exact (kept.take another.mailbox).forgets_yielded here (orderly.handled _)
        (orderly.yields_handle _) .inl scheduler frontEnds tidied stayed told terminal
  | stopped _ running scheduler frontEnds _ =>
      have here := (running?_eq_some running).1
      exact kept.forgets_yielded here (kept.orderly here).stopped_acts
        FrontEnd.yields_stop .inl scheduler frontEnds tidied stayed told terminal
  | unheard _ _ frontEnds _ =>
      rw [frontEnds, List.getElem?_modify] at stayed
      obtain ⟨before, here, rfl⟩ := Option.map_eq_some_iff.mp stayed
      refine .inl ⟨before, here, ?_⟩
      split at told
      · exact told
      · exact told
  | took _ _ frontEnds _ => exact .inl ⟨frontEnd, frontEnds ▸ stayed, told⟩
  | replied _ _ frontEnds _ => exact .inl ⟨frontEnd, frontEnds ▸ stayed, told⟩

/-- A query is forgotten once a front end has told how it ended. -/
theorem Reaches.forgets_concluded (reached : (Hub.begin run depth).Reaches hub)
    (found : hub.frontEnds[index]? = some frontEnd)
    (told : (id, notice) ∈ frontEnd.notices) (terminal : notice.isTerminal = true) :
    hub.Forgets id := by
  induction reached generalizing frontEnd with
  | start => cases found
  | @play hub move reached ih =>
      have kept := reached.kept
      rcases kept.forgets_told reached.tidy move found told terminal with
          ⟨before, here, told⟩ | forgets
      · exact (ih here told).play kept reached.tidy ((kept.orderly here).told told) move
      · exact forgets

/-- The queries of a front end are forgotten when it is shut down. -/
theorem Kept.forgets_shutdown (kept : hub.Kept) (tidy : hub.Tidy)
    (here : hub.frontEnds[index]? = some frontEnd) (held : frontEnd.runs id = true) :
    (hub.play (.shutdown index)).Forgets id := by
  have running : hub.running? index = some frontEnd := by
    simp [running?, here, (kept.orderly here).isRunning held]
  have same : hub.play (.shutdown index) = hub.after index (frontEnd.stop hub.scheduler) := by
    simp [Hub.play, shutdown, running]
  have gone : id ∉ (frontEnd.stop hub.scheduler).2.table.trackedBy frontEnd.consumer :=
    @Scheduler.untracked_act (hub.scheduler.abandon frontEnd.mailbox) id
      frontEnd.consumer _ (.inr rfl)
  rw [same]
  exact kept.forgets_acted here (kept.orderly here).stopped_acts .inl held rfl gone
    rfl rfl (same ▸ tidy.play kept (.shutdown index))

end Forgotten

/-- From now on nothing is left of the query, and no event about it is delivered. -/
structure Retires (hub : Hub) (id : QueryId) : Prop where
  forgets : ∀ later, hub.Reaches later → later.Forgets id
  undelivered : ∀ later, hub.Reaches later → ∀ (reply : Reply) {consumer event},
    (consumer, event) ∈ (later.scheduler.accept reply).1 → event.query ≠ id
  unmailed : ∀ later, hub.Reaches later → ∀ (move : Move) {mailbox event},
    event ∈ ((later.play move).scheduler.mailbox mailbox).events → event.query = id →
    event ∈ (later.scheduler.mailbox mailbox).events

theorem Reaches.issued_subset (onward : hub.Reaches later) :
    hub.issued ⊆ later.issued := by
  induction onward with
  | start => exact List.Subset.refl _
  | @play middle move _ ih =>
      refine List.Subset.trans ih ?_
      cases middle.played move with
      | submitted _ _ _ _ _ issues => exact issues ▸ List.subset_cons_self _ _
      | nothing _ _ issues | spawned _ _ issues | handled _ _ _ _ _ issues
      | stopped _ _ _ _ issues | unheard _ _ _ issues | took _ _ _ issues
      | replied _ _ _ issues =>
          exact issues ▸ List.Subset.refl _

/-- A move puts an event into a mailbox only if some consumer tracks the
query that it is about. -/
theorem Kept.unmailed_play (kept : hub.Kept) (move : Move)
    {mailbox : MailboxId} {event : QueryEvent}
    (mailed : event ∈ ((hub.play move).scheduler.mailbox mailbox).events) :
    event ∈ (hub.scheduler.mailbox mailbox).events ∨
      ∃ consumer, event.query ∈ hub.scheduler.table.trackedBy consumer := by
  rcases kept.leads_play move with leads | ⟨_, scheduler⟩ | ⟨reply, _, scheduler⟩
  · let holds (later : Scheduler) : Prop :=
      event ∈ (later.mailbox mailbox).events →
        event ∈ (hub.scheduler.mailbox mailbox).events
    have kept {later : Scheduler} {act : Scheduler.Act} (given : holds later)
        (_ : True) : holds (later.act act) :=
      fun mailed => given (Scheduler.mailed_of_act mailed)
    have begins : holds hub.scheduler := id
    exact .inl (leads.keeps kept begins mailed)
  · rw [scheduler] at mailed
    exact .inl mailed
  · rw [scheduler] at mailed
    rcases Scheduler.mailed_of_deliver mailed with before | ⟨consumer, delivered⟩
    · exact .inl before
    · exact .inr ⟨consumer, (kept.enrolled.consistent.concerned_of_mem_reply delivered).2⟩

/-- A query that is forgotten is retired. -/
theorem Reaches.retires (reached : (Hub.begin run depth).Reaches hub)
    (forgets : hub.Forgets id) (known : id ∈ hub.issued) : hub.Retires id := by
  have remains {later : Hub} (onward : hub.Reaches later) : later.Forgets id := by
    induction onward with
    | start => exact forgets
    | play onward ih =>
        have reachedLater := reached.trans onward
        exact ih.play reachedLater.kept reachedLater.tidy (onward.issued_subset known) _
  refine ⟨fun _ => remains, fun later onward reply {consumer event} delivered about => ?_,
    fun later onward move {mailbox event} mailed about => ?_⟩
  · have consistent := (reached.trans onward).kept.enrolled.consistent
    exact (remains onward).untracked consumer
      (about ▸ (consistent.concerned_of_mem_reply delivered).2)
  · refine ((reached.trans onward).kept.unmailed_play move mailed).resolve_right ?_
    rintro ⟨consumer, tracked⟩
    exact (remains onward).untracked consumer (about ▸ tracked)

/-- If every front end has a consumer of its own, whatever the scheduler remembers of a
query it remembers for one consumer, whose front end is running and runs the query, unless
it has crashed; harmless moves crash none.  A query is retired as soon as its last notice
is told, or its front end is shut down. -/
theorem Reaches.leaves_no_trace (reached : (Hub.begin run depth).Reaches hub) :
    ((hub.frontEnds.map FrontEnd.consumer).Nodup → ∀ {id}, hub.scheduler.table.Mentions id →
        ∃ frontEnd ∈ hub.frontEnds,
          (∀ consumer, id ∈ hub.scheduler.table.trackedBy consumer ↔
            consumer = frontEnd.consumer) ∧ (frontEnd.isRunning = true ∧
            frontEnd.runs id = true ∨ frontEnd.Crashed hub.scheduler)) ∧
      ((Hub.begin run depth).ReachesSafely hub →
        ∀ frontEnd ∈ hub.frontEnds, ¬frontEnd.Crashed hub.scheduler) ∧
      (∀ frontEnd ∈ hub.frontEnds, ∀ {id notice}, (id, notice) ∈ frontEnd.notices →
        notice.isTerminal = true → hub.Retires id) ∧
      ∀ {index : Nat} {frontEnd : FrontEnd}
        {id : QueryId}, hub.frontEnds[index]? = some frontEnd → frontEnd.runs id = true →
        (hub.play (.shutdown index)).Retires id := by
  have kept := reached.kept
  have tidy := reached.tidy
  refine ⟨fun distinct id mentions => ?_, fun safely frontEnd member => ?_,
    fun frontEnd member id notice told terminal => ?_,
    fun {index frontEnd id} here held => ?_⟩
  · obtain ⟨consumer, tracked⟩ :=
      tidy.scheduler.consistent.trackedBy_of_mentions tidy.scheduler.listed mentions
    obtain ⟨index, frontEnd, here, rfl, state⟩ := tidy.backed tracked
    have sole (consumer : ConsumerId) :
        id ∈ hub.scheduler.table.trackedBy consumer ↔ consumer = frontEnd.consumer :=
      ⟨fun tracks => tidy.single tracks tracked, fun same => same ▸ tracked⟩
    refine ⟨frontEnd, List.mem_of_getElem? here, sole, ?_⟩
    rcases state with held | stopped
    · exact .inl ⟨(kept.orderly here).isRunning held, held⟩
    · -- The consumer is attached, and nobody but this front end has ever attached it.
      obtain ⟨mailbox, address⟩ :=
        Option.isSome_iff_exists.mp (tidy.scheduler.attached tracked)
      obtain ⟨other, another, found, named, rfl⟩ := tidy.addressed address
      obtain rfl :=
        Runtime.alone_of_nodup distinct index other frontEnd another here found named
      obtain rfl := Option.some.inj (here.symm.trans found)
      exact .inr ⟨stopped, address⟩
  · obtain ⟨index, here⟩ := List.mem_iff_getElem?.mp member
    exact safely.unharmed.uncrashed here
  · obtain ⟨index, here⟩ := List.mem_iff_getElem?.mp member
    exact reached.retires (reached.forgets_concluded here told terminal)
      ((kept.orderly here).told told)
  · refine Reaches.retires reached.play (kept.forgets_shutdown tidy here held) ?_
    exact Reaches.issued_subset (.play .start) ((kept.orderly here).enrolled held)

/-- What was fetched is fetched from, and then given to a body that is nowhere. -/
def danglingContext : Context where
  arena := { blocks := #[{ bindings :=
    [("r", [.apply [.lambda (.foreign Engine.fetchTask)] [("url", [.str "a"])] 1 false])] }] }
  root := ⟨0⟩
  targets := [[.apply [.lambda (.foreign Engine.fetchTask)] [("url", [.name "r"])] 1 false,
    .apply [.lambda (.native ⟨{ params := [.plain "x"], outputs := ["y"] }, ⟨7⟩⟩)]
      [("x", [.name "r"])] 1 false]]

def danglingRead : Hub :=
  ((((Hub.start Engine.fetchRun).play (.spawn ⟨1⟩)).play (.submit 0 ⟨0⟩ danglingContext)).play
    (.reply (.finished Engine.fetchTicket.id [[.str "b"]] []))).play (.advance 0)

/-- The query takes its front end with it, and the scheduler goes on remembering it. -/
theorem mentions_danglingRead :
    (Hub.start Engine.fetchRun).Reaches danglingRead ∧
      (danglingRead.frontEnds.map FrontEnd.consumer).Nodup ∧
      danglingRead.scheduler.table.Mentions ⟨0⟩ ∧
      ¬∃ frontEnd ∈ danglingRead.frontEnds, frontEnd.isRunning = true ∧
        frontEnd.runs ⟨0⟩ = true := by
  have evaluated :
      (danglingRead.frontEnds.map fun frontEnd => (frontEnd.consumer, frontEnd.isRunning)) =
        [(⟨1⟩, false)] ∧
      danglingRead.scheduler.table.trackedBy ⟨1⟩ = [⟨0⟩] := by decide +kernel
  obtain ⟨stopped, tracks⟩ := evaluated
  obtain ⟨only, here, same⟩ := List.map_eq_singleton_iff.mp stopped
  have tracked : (⟨0⟩ : QueryId) ∈ danglingRead.scheduler.table.trackedBy ⟨1⟩ := by
    rw [tracks]
    exact List.mem_singleton_self _
  refine ⟨Reaches.start.play.play.play.play, ?_, .tracked tracked, ?_⟩
  · rw [here]
    exact List.nodup_singleton _
  · rintro ⟨frontEnd, member, running, _⟩
    rw [here, List.mem_singleton] at member
    rw [member, (Prod.mk.inj same).2] at running
    cases running

theorem harmless_pairContext :
    ((Hub.begin Engine.fetchRun Reduction.ampleDepth).play (.spawn ⟨1⟩)).Harmless
      (.submit 0 ⟨0⟩ pairContext) :=
  ⟨Context.closed_of_whole rfl (by decide) (by decide) (by decide), by decide +kernel⟩

theorem harmless_siblingTicket :
    pairAsked.Harmless (.reply (.finished siblingTicket.id [[.str "p"]] [])) := by
  intro value among term inside
  obtain rfl := List.mem_singleton.mp among
  obtain rfl := List.mem_singleton.mp inside
  rfl

/-- A query with a ticket outstanding is run; it is retired if its front end is shut down,
and by the notice of the failure of that ticket. -/
theorem leaves_no_trace_pairRead :
    (∃ frontEnd ∈ pairFinished.frontEnds, frontEnd.isRunning = true ∧
      frontEnd.runs ⟨0⟩ = true) ∧
      (pairFinished.play (.shutdown 0)).Retires ⟨0⟩ ∧ pairRead.Retires ⟨0⟩ := by
  obtain ⟨asked, waits, read⟩ := evaluated_pairRead
  obtain ⟨before, here, same⟩ := List.map_eq_singleton_iff.mp asked
  obtain ⟨last, latest, told⟩ := List.map_eq_singleton_iff.mp read
  have held : before.runs ⟨0⟩ = true := (Prod.mk.inj same).2
  have ends : (last.noticesOf ⟨0⟩).map Notice.isTerminal = [false, true] :=
    (Prod.mk.inj told).2
  let nobody : Hub := Hub.begin Engine.fetchRun Reduction.ampleDepth
  have spawned : nobody.ReachesSafely (nobody.play (.spawn ⟨1⟩)) := .play .start trivial
  have safely : nobody.ReachesSafely pairFinished :=
    (spawned.play harmless_pairContext).play harmless_siblingTicket
  have finished := safely.reaches
  have reached : nobody.Reaches pairRead := finished.play.play.play
  have outstanding :
      pairFailure.ticket ∈ pairFinished.scheduler.table.outstandingOf ⟨0⟩ := by
    rw [waits]
    exact List.mem_singleton_self _
  have depends := finished.kept.enrolled.consistent.related.mp outstanding
  have distinct : (pairFinished.frontEnds.map FrontEnd.consumer).Nodup := by
    rw [here]
    exact List.nodup_singleton _
  have foundHere : pairFinished.frontEnds[0]? = some before := by rw [here]; rfl
  have latestHere : last ∈ pairRead.frontEnds := by
    rw [latest]; exact List.mem_singleton_self _
  have ended : true ∈ (last.noticesOf ⟨0⟩).map Notice.isTerminal := by simp [ends]
  obtain ⟨notice, member, terminal⟩ := List.mem_map.mp ended
  obtain ⟨remembered, uncrashed, concluded, stopped⟩ := finished.leaves_no_trace
  obtain ⟨frontEnd, among, _, state⟩ := remembered distinct (.dependent depends)
  exact ⟨⟨frontEnd, among, state.resolve_right (uncrashed safely frontEnd among)⟩,
    stopped foundHere held, reached.leaves_no_trace.2.2.1 last latestHere
    (FrontEnd.mem_noticesOf.mp member) terminal⟩

end Hub

end TicketFlow
