import TicketFlow.Proofs.Hub.Moves

namespace TicketFlow

/-! What a hub keeps track of, whatever happens.

A query gets its id when it is taken, is held by one front end until it is
concluded, and is tracked by the consumer of that front end only.  No id is
given twice, so nothing is told about a query after its last notice.
-/

namespace FrontEnd

/-- The queries of a front end are among those with an id, and it has not
concluded any of them. -/
structure Orderly (issued : List QueryId) (frontEnd : FrontEnd) : Prop where
  stopped : frontEnd.isRunning = false → frontEnd.queries = []
  keyed : frontEnd.Keyed
  enrolled : ∀ {id}, frontEnd.runs id = true → id ∈ issued
  told : ∀ {id notice}, (id, notice) ∈ frontEnd.notices → id ∈ issued
  concluded :
    ∀ {id notice}, (id, notice) ∈ frontEnd.notices → notice.isTerminal = true →
    frontEnd.runs id = false
  ordered :
    frontEnd.notices.Pairwise fun earlier later => earlier.1 = later.1 →
      earlier.2.isTerminal = false

variable {frontEnd : FrontEnd} {issued more : List QueryId} {depth : Nat}
  {scheduler : Scheduler} {query : Query} {id other : QueryId} {notice : Notice}

theorem orderly_new (consumer : ConsumerId) (mailbox : MailboxId)
    (issued : List QueryId) : ({ consumer, mailbox } : FrontEnd).Orderly issued where
  stopped _ := rfl
  keyed found := by simp at found
  enrolled held := by simp [runs, OrderedMap.contains] at held
  told member := by simp at member
  concluded member := by simp at member
  ordered := .nil

theorem Orderly.mono (orderly : frontEnd.Orderly issued) (within : issued ⊆ more) :
    frontEnd.Orderly more :=
  { orderly with
    enrolled := fun runs => within (orderly.enrolled runs)
    told := fun member => within (orderly.told member) }

theorem mem_notices_tell (told : (other, notice) ∈ (frontEnd.tell id given).notices) :
    (other, notice) ∈ frontEnd.notices ∨ (other = id ∧ notice = given) := by
  unfold tell at told
  split at told
  · rcases List.mem_append.mp told with before | new
    · exact .inl before
    · exact .inr (Prod.mk.inj (List.mem_singleton.mp new))
  · exact .inl told

/-- A front end tells of a query that is not concluded; after a terminal notice it
runs the query no more. -/
theorem Orderly.tell {given : Notice}
    (orderly : frontEnd.Orderly issued) (below : id ∈ issued)
    (unconcluded : ∀ {notice}, (id, notice) ∈ frontEnd.notices → notice.isTerminal = false)
    (leaves : given.isTerminal = true → frontEnd.runs id = false) :
    (frontEnd.tell id given).Orderly issued where
  stopped ended := by
    rw [queries_tell]
    exact orderly.stopped (by simpa using ended)
  keyed found := by
    rw [queries_tell] at found
    rw [consumer_tell]
    exact orderly.keyed found
  enrolled runs := orderly.enrolled (by simpa [runs_tell] using runs)
  told member := by
    rcases mem_notices_tell member with before | ⟨rfl, _⟩
    · exact orderly.told before
    · exact below
  concluded member terminal := by
    rw [runs_tell]
    rcases mem_notices_tell member with before | ⟨rfl, rfl⟩
    · exact orderly.concluded before terminal
    · exact leaves terminal
  ordered := by
    unfold FrontEnd.tell
    split
    · refine List.pairwise_append.mpr ⟨orderly.ordered, List.pairwise_singleton _ _, ?_⟩
      rintro ⟨earlier, notice⟩ before ⟨later, _⟩ new same
      obtain ⟨rfl, rfl⟩ := Prod.mk.inj (List.mem_singleton.mp new)
      obtain rfl : earlier = _ := same
      exact unconcluded before
    · exact orderly.ordered

theorem Orderly.conclude (orderly : frontEnd.Orderly issued) (below : id ∈ issued)
    (unconcluded : ∀ {notice}, (id, notice) ∈ frontEnd.notices → notice.isTerminal = false) :
    (frontEnd.conclude scheduler id notice).1.Orderly issued := by
  have retired : (frontEnd.retire scheduler id).1.Orderly issued :=
    { stopped := fun ended => by simp [retire, orderly.stopped ended, OrderedMap.erase]
      keyed := by
        intro other query found
        have found : (frontEnd.queries.erase id).get? other = some query := found
        rw [OrderedMap.get?_erase] at found
        split at found
        · simp at found
        · exact orderly.keyed found
      enrolled := by
        intro other runs
        have runs : (frontEnd.queries.erase id).contains other = true := runs
        rw [OrderedMap.contains, OrderedMap.get?_erase] at runs
        split at runs
        · simp at runs
        · exact orderly.enrolled runs
      told := orderly.told
      concluded := by
        intro other notice member terminal
        have before := orderly.concluded member terminal
        have absent : (frontEnd.queries.get? other).isSome = false := before
        change ((frontEnd.queries.erase id).get? other).isSome = false
        rw [OrderedMap.get?_erase]
        split
        · rfl
        · exact absent
      ordered := orderly.ordered }
  refine retired.tell below unconcluded fun _ => ?_
  simp [retire, runs, OrderedMap.contains]

/-- A query that is not concluded is put in place. -/
theorem Orderly.insert (orderly : frontEnd.Orderly issued)
    (running : frontEnd.isRunning = true) (below : query.id ∈ issued)
    (same : query.consumer = frontEnd.consumer)
    (unconcluded : ∀ {notice}, (query.id, notice) ∈ frontEnd.notices →
      notice.isTerminal = false) :
    ({ frontEnd with queries := frontEnd.queries.insert query.id query } : FrontEnd).Orderly
      issued where
  stopped ended := by simp [running] at ended
  keyed := by
    intro other found inserted
    have inserted : (frontEnd.queries.insert query.id query).get? other = some found :=
      inserted
    rw [OrderedMap.get?_insert] at inserted
    split at inserted
    next named =>
      obtain rfl := Option.some.inj inserted
      exact ⟨named, same⟩
    next => exact orderly.keyed inserted
  enrolled := by
    intro other runs
    have runs : ((frontEnd.queries.insert query.id query).get? other).isSome = true :=
      runs
    rw [OrderedMap.get?_insert] at runs
    split at runs
    next named => exact named ▸ below
    next => exact orderly.enrolled runs
  told := orderly.told
  concluded := by
    intro other notice member terminal
    have before : (frontEnd.queries.get? other).isSome = false :=
      orderly.concluded member terminal
    change ((frontEnd.queries.insert query.id query).get? other).isSome = false
    rw [OrderedMap.get?_insert]
    split
    next named =>
      subst named
      simp [unconcluded member] at terminal
    next => exact before
  ordered := orderly.ordered

theorem Orderly.stop (orderly : frontEnd.Orderly issued) :
    ({ frontEnd with queries := [], isRunning := false } : FrontEnd).Orderly issued where
  stopped _ := rfl
  keyed found := by simp at found
  enrolled held := by simp [runs, OrderedMap.contains] at held
  told := orderly.told
  concluded _ _ := by simp [runs, OrderedMap.contains]
  ordered := orderly.ordered

theorem Orderly.unconcluded (orderly : frontEnd.Orderly issued)
    (held : frontEnd.runs id = true) (member : (id, notice) ∈ frontEnd.notices) :
    notice.isTerminal = false := by
  by_contra terminal
  simp [orderly.concluded member (by simpa using terminal)] at held

theorem Orderly.isRunning (orderly : frontEnd.Orderly issued)
    (held : frontEnd.runs id = true) : frontEnd.isRunning = true := by
  by_contra ended
  simp [runs, orderly.stopped (by simpa using ended), OrderedMap.contains] at held

theorem Orderly.step (orderly : frontEnd.Orderly issued)
    (running : frontEnd.isRunning = true) (below : query.id ∈ issued)
    (same : query.consumer = frontEnd.consumer)
    (unconcluded : ∀ {notice}, (query.id, notice) ∈ frontEnd.notices →
      notice.isTerminal = false) :
    (frontEnd.step depth scheduler query).1.Orderly issued := by
  obtain ⟨named, owned, _⟩ := query.serves_step depth scheduler
  have updated : (frontEnd.updated depth scheduler query).Orderly issued := by
    rw [FrontEnd.updated, ← named]
    exact orderly.insert running (named ▸ below) (owned.trans same) (named ▸ unconcluded)
  rcases frontEnd.step_cases depth scheduler query with
      ⟨_, ends⟩ | ⟨notice, _, _, ends⟩ | ⟨_, _, _, ends⟩ <;> rw [ends]
  · exact updated
  · exact updated.conclude below unconcluded
  · exact updated.stop

theorem Orderly.handle (orderly : frontEnd.Orderly issued) (event : QueryEvent) :
    (frontEnd.handle depth scheduler event).1.Orderly issued := by
  rcases frontEnd.handle_cases depth scheduler event with
    ⟨_, same⟩ | ⟨ticket, report, query, _, found, same⟩ | ⟨failure, _, held, same⟩ <;>
      rw [same]
  · exact orderly
  · obtain ⟨named, owned⟩ := orderly.keyed found
    have held := runs_of_get? found
    have told : (frontEnd.tell event.query (.ticketFinished ticket report)).Orderly issued :=
      orderly.tell (orderly.enrolled held) (orderly.unconcluded held)
        (by simp [Notice.isTerminal])
    have heldAfter :
        (frontEnd.tell event.query (.ticketFinished ticket report)).runs query.id = true := by
      rw [runs_tell, named, held]
    split
    · exact told.step (told.isRunning heldAfter) (told.enrolled heldAfter)
        (by simpa using owned) (told.unconcluded heldAfter)
    · exact told
  · exact orderly.conclude (orderly.enrolled held) (orderly.unconcluded held)

section Acted

theorem runs_updated (frontEnd : FrontEnd) (depth : Nat)
    (scheduler : Scheduler) (query : Query) (other : QueryId) :
    (frontEnd.updated depth scheduler query).runs other =
      (frontEnd.runs other || other == query.id) := by
  change ((frontEnd.queries.insert query.id _).get? other).isSome =
    ((frontEnd.queries.get? other).isSome || _)
  rw [OrderedMap.get?_insert]
  by_cases same : query.id = other
  · simp [same]
  · simp [same, Ne.symm same]

/-- What a front end has become, and what it has done, by acting for the
queries that are its own. -/
structure Acted (issued : List QueryId) (own : QueryId → Prop) (frontEnd : FrontEnd)
    (scheduler : Scheduler) (acted : FrontEnd × Scheduler) : Prop where
  orderly : acted.1.Orderly issued
  consumer : acted.1.consumer = frontEnd.consumer
  mailbox : acted.1.mailbox = frontEnd.mailbox
  runs : ∀ {id}, acted.1.runs id = true → own id
  leads : Scheduler.Leads (frontEnd.Does acted.1 own) scheduler acted.2

theorem frame_step (frontEnd : FrontEnd) (depth : Nat)
    (scheduler : Scheduler) (query : Query) :
    (frontEnd.step depth scheduler query).1.consumer = frontEnd.consumer ∧
      (frontEnd.step depth scheduler query).1.mailbox = frontEnd.mailbox ∧
      ∀ {id}, (frontEnd.step depth scheduler query).1.runs id = true →
        frontEnd.runs id = true ∨ id = query.id := by
  have held {id : QueryId}
      (held : (frontEnd.updated depth scheduler query).runs id = true) :
      frontEnd.runs id = true ∨ id = query.id := by
    simpa [runs_updated] using held
  rcases frontEnd.step_cases depth scheduler query with
      ⟨_, ends⟩ | ⟨notice, _, _, ends⟩ | ⟨_, _, _, ends⟩ <;> rw [ends]
  · exact ⟨rfl, rfl, held⟩
  · refine ⟨by simp [conclude, retire, updated], by simp [conclude, retire, updated],
      fun still => held ?_⟩
    rw [runs_concluded, Bool.and_eq_true] at still
    exact still.1
  · exact ⟨rfl, rfl, fun still => by simp [crash, runs, OrderedMap.contains] at still⟩

theorem Orderly.submit (orderly : frontEnd.Orderly issued)
    (running : frontEnd.isRunning = true) (fresh : id ∉ issued) (context : Context) :
    frontEnd.Acted (id :: issued) (fun other => frontEnd.runs other = true ∨ other = id)
      scheduler (frontEnd.submit depth scheduler id context) := by
  obtain ⟨consumer, mailbox, held⟩ :=
    frontEnd.frame_step depth scheduler { id, consumer := frontEnd.consumer, context }
  refine ⟨?_, consumer, mailbox, fun given => held given, leads_step rfl (.inr rfl)⟩
  refine (orderly.mono (List.subset_cons_self id issued)).step running List.mem_cons_self
    rfl fun {notice} member => ?_
  exact absurd (orderly.told member) fresh

theorem Orderly.handled (orderly : frontEnd.Orderly issued) (event : QueryEvent) :
    frontEnd.Acted issued (fun id => frontEnd.runs id = true) scheduler
      (frontEnd.handle depth scheduler event) := by
  have frame : (frontEnd.handle depth scheduler event).1.consumer = frontEnd.consumer ∧
      (frontEnd.handle depth scheduler event).1.mailbox = frontEnd.mailbox ∧
      ∀ {id}, (frontEnd.handle depth scheduler event).1.runs id = true →
        frontEnd.runs id = true := by
    rcases frontEnd.handle_cases depth scheduler event with
      ⟨_, same⟩ | ⟨ticket, report, query, _, found, same⟩ | ⟨failure, _, held, same⟩ <;>
        rw [same]
    · exact ⟨rfl, rfl, id⟩
    · split
      · obtain ⟨consumer, mailbox, held⟩ :=
          (frontEnd.tell event.query (.ticketFinished ticket report)).frame_step
            depth scheduler query
        refine ⟨by simpa using consumer, by simpa using mailbox, fun given => ?_⟩
        rcases held given with before | rfl
        · simpa [runs_tell] using before
        · simp [runs, OrderedMap.contains, (orderly.keyed found).1, found]
      · exact ⟨consumer_tell, mailbox_tell, fun given => by simpa [runs_tell] using given⟩
    · refine ⟨by simp [FrontEnd.conclude, retire], by simp [FrontEnd.conclude, retire],
        fun still => ?_⟩
      rw [runs_concluded, Bool.and_eq_true] at still
      exact still.1
  exact ⟨orderly.handle event, frame.1, frame.2.1, frame.2.2, leads_handle orderly.keyed⟩

theorem Orderly.stopped_acts (orderly : frontEnd.Orderly issued) :
    frontEnd.Acted issued (fun id => frontEnd.runs id = true) scheduler
      (frontEnd.stop scheduler) :=
  ⟨orderly.stop, rfl, rfl,
    fun still => by simp [FrontEnd.stop, runs, OrderedMap.contains] at still, leads_stop⟩

end Acted

end FrontEnd

namespace Scheduler

/-- The queries that a scheduler knows are among those with an id, and those that
failed wait for nothing. -/
structure Enrolled (issued : List QueryId) (scheduler : Scheduler) : Prop where
  consistent : scheduler.table.Consistent
  tracked :
    ∀ {consumer query}, query ∈ scheduler.table.trackedBy consumer → query ∈ issued
  mailed :
    ∀ {mailbox event}, event ∈ (scheduler.mailbox mailbox).events → event.query ∈ issued
  idle :
    ∀ {query id}, query ∈ scheduler.table.failed → id ∉ scheduler.table.outstandingOf query

variable {scheduler after : Scheduler} {issued more : List QueryId}
  {consumer : ConsumerId} {query : QueryId} {own : QueryId → Prop}

theorem enrolled_start (run : RunId) : (Scheduler.start run).Enrolled [] where
  consistent := TicketTable.consistent_empty run
  tracked tracked := by simp [start, TicketTable.trackedBy] at tracked
  mailed mailed := by simp [start, mailbox] at mailed
  idle failed := by simp [start] at failed

theorem Enrolled.mono (enrolled : scheduler.Enrolled issued) (within : issued ⊆ more) :
    scheduler.Enrolled more :=
  { enrolled with
    tracked := fun tracked => within (enrolled.tracked tracked)
    mailed := fun mailed => within (enrolled.mailed mailed) }

/-- Requests are made for queries with an id that have not failed. -/
theorem Enrolled.act {act : Act} (enrolled : scheduler.Enrolled issued)
    (asks : ∀ {consumer query apply}, act = .request consumer query apply →
      query ∈ issued ∧ query ∉ scheduler.table.failed) :
        (scheduler.act act).Enrolled issued where
  consistent := consistent_act enrolled.consistent
  tracked tracked := by
    rcases trackedBy_of_act tracked with before | ⟨_, request⟩
    · exact enrolled.tracked before
    · exact (asks request).1
  mailed mailed := enrolled.mailed (mailed_of_act mailed)
  idle failed waits := by
    have before := failed_of_act enrolled.consistent failed
    rcases outstandingOf_of_act enrolled.consistent waits with waits | ⟨_, _, request⟩
    · exact enrolled.idle before waits
    · exact (asks request).2 before

theorem Enrolled.reply (enrolled : scheduler.Enrolled issued) (reply : Reply) :
    (scheduler.reply reply).Enrolled issued := by
  have consistent := enrolled.consistent
  obtain ⟨tracks, fails, waits⟩ := of_reply consistent reply
  exact
    { consistent := (untouched_reply consistent reply).2
      tracked := fun tracked => enrolled.tracked (tracks tracked)
      mailed := by
        intro mailbox event mailed
        rcases mailed_of_deliver mailed with before | ⟨consumer, delivered⟩
        · exact enrolled.mailed before
        · exact enrolled.tracked (consistent.concerned_of_mem_reply delivered).2
      idle := by
        intro query id failed waiting
        obtain ⟨before, _, survives⟩ :=
          (TicketTable.mem_outstandingOf_reply consistent.toIndexed).mp (waits waiting)
        rcases (TicketTable.mem_failed_reply consistent.toIndexed).mp (fails failed) with
            failed | failing
        · exact enrolled.idle failed before
        · exact survives failing }

/-- A front end makes a query tracked only by its own consumer, and
only a query of its own. -/
theorem trackedBy_of_leads {frontEnd became : FrontEnd}
    (leads : Leads (frontEnd.Does became own) scheduler after)
    (tracked : query ∈ after.table.trackedBy consumer) :
    query ∈ scheduler.table.trackedBy consumer ∨
      consumer = frontEnd.consumer ∧ own query := by
  let holds (later : Scheduler) : Prop := query ∈ later.table.trackedBy consumer →
    query ∈ scheduler.table.trackedBy consumer ∨ consumer = frontEnd.consumer ∧ own query
  have kept {later : Scheduler} {act : Act} (given : holds later)
      (does : frontEnd.Does became own later act) : holds (later.act act) := by
    intro tracked
    rcases trackedBy_of_act tracked with before | ⟨apply, rfl⟩
    · exact given before
    · exact .inr ⟨does.1, does.2.1⟩
  have begins : holds scheduler := .inl
  exact leads.keeps kept begins tracked

theorem Enrolled.leads {frontEnd became : FrontEnd} (enrolled : scheduler.Enrolled issued)
    (leads : Leads (frontEnd.Does became own) scheduler after)
    (below : ∀ {id}, own id → id ∈ issued) : after.Enrolled issued := by
  have kept {later : Scheduler} {act : Act} (given : later.Enrolled issued)
      (does : frontEnd.Does became own later act) : (later.act act).Enrolled issued := by
    refine given.act ?_
    rintro consumer query apply rfl
    exact ⟨below does.2.1, does.2.2⟩
  exact leads.keeps kept enrolled

end Scheduler

namespace Hub

/-- Every front end has a mailbox and queries of its own, and what is tracked of them is
tracked by its consumer. -/
structure Kept (hub : Hub) : Prop where
  enrolled : hub.scheduler.Enrolled hub.issued
  orderly : ∀ {index : Nat} {frontEnd : FrontEnd}, hub.frontEnds[index]? = some frontEnd →
    frontEnd.Orderly hub.issued
  boxed : ∀ {index : Nat} {frontEnd : FrontEnd}, hub.frontEnds[index]? = some frontEnd →
    frontEnd.mailbox.index < hub.scheduler.mailboxes.length
  apart :
    ∀ {index other : Nat} {frontEnd another : FrontEnd},
    hub.frontEnds[index]? = some frontEnd → hub.frontEnds[other]? = some another →
    frontEnd.mailbox = another.mailbox → index = other
  sole :
    ∀ {index other : Nat} {frontEnd another : FrontEnd} {id : QueryId},
    hub.frontEnds[index]? = some frontEnd → hub.frontEnds[other]? = some another →
    frontEnd.runs id = true → another.runs id = true → index = other
  owned : ∀ {index : Nat} {frontEnd : FrontEnd} {id : QueryId} {consumer : ConsumerId},
    hub.frontEnds[index]? = some frontEnd → frontEnd.runs id = true →
    id ∈ hub.scheduler.table.trackedBy consumer → consumer = frontEnd.consumer

variable {hub after : Hub} {index other : Nat} {frontEnd another : FrontEnd}

theorem kept_begin (run : RunId) (depth : Nat) : (Hub.begin run depth).Kept where
  enrolled := Scheduler.enrolled_start run
  orderly found := by simp [begin] at found
  boxed found := by simp [begin] at found
  apart found := by simp [begin] at found
  sole found := by simp [begin] at found
  owned found := by simp [begin] at found

theorem running?_eq_some (running : hub.running? index = some frontEnd) :
    hub.frontEnds[index]? = some frontEnd ∧ frontEnd.isRunning = true := by
  simpa [running?, Option.filter_eq_some_iff] using running

theorem getElem?_set_cases {became : FrontEnd}
    (found : (hub.frontEnds.set index became)[other]? = some another) :
    (other = index ∧ another = became) ∨
      (other ≠ index ∧ hub.frontEnds[other]? = some another) := by
  rw [List.getElem?_set] at found
  split at found
  next same =>
    split at found
    · exact .inl ⟨same.symm, (Option.some.inj found).symm⟩
    · simp at found
  next apart => exact .inr ⟨Ne.symm apart, found⟩

theorem getElem?_append_cases
    (found : (hub.frontEnds ++ [frontEnd])[other]? = some another) :
    (other = hub.frontEnds.length ∧ another = frontEnd) ∨
      hub.frontEnds[other]? = some another := by
  rcases Nat.lt_trichotomy other hub.frontEnds.length with below | same | above
  · exact .inr (by rwa [List.getElem?_append_left below] at found)
  · subst same
    exact .inl ⟨rfl, by simpa using found.symm⟩
  · rw [List.getElem?_append_right (Nat.le_of_lt above), List.getElem?_singleton] at found
    split at found
    · omega
    · simp at found

/-- Reading a mailbox touches nothing that is kept. -/
theorem Kept.take (kept : hub.Kept) (mailbox : MailboxId) :
    ({ hub with scheduler := hub.scheduler.act (.take mailbox) } : Hub).Kept where
  enrolled := @Scheduler.Enrolled.act _ _ (.take mailbox) kept.enrolled (by rintro _ _ _ ⟨⟩)
  orderly := kept.orderly
  boxed
    found := Nat.lt_of_lt_of_le (kept.boxed found) (hub.scheduler.length_mailboxes_act _)
  apart := kept.apart
  sole := kept.sole
  owned found held tracked :=
    kept.owned found held ((Scheduler.trackedBy_of_act tracked).resolve_right (by simp))

/-- A front end acts for its own queries: those that it runs, and new ones. -/
theorem Kept.acted (kept : hub.Kept) {issued : List QueryId} {own : QueryId → Prop}
    {acted : FrontEnd × Scheduler} (running : hub.running? index = some frontEnd)
    (acts : frontEnd.Acted issued own hub.scheduler acted) (within : hub.issued ⊆ issued)
    (below : ∀ {id}, own id → id ∈ issued)
    (ours : ∀ {id}, own id → frontEnd.runs id = true ∨ id ∉ hub.issued)
    (scheduler : after.scheduler = acted.2)
    (frontEnds : after.frontEnds = hub.frontEnds.set index acted.1)
    (issues : after.issued = issued) : after.Kept := by
  obtain ⟨here, _⟩ := running?_eq_some running
  have foreign {other : Nat} {another : FrontEnd} {id : QueryId}
      (apart : other ≠ index) (found : hub.frontEnds[other]? = some another)
      (held : another.runs id = true) : ¬own id := by
    intro owns
    rcases ours owns with holds | new
    · exact apart (kept.sole found here held holds)
    · exact new ((kept.orderly found).enrolled held)
  exact
    { enrolled := by
        rw [scheduler, issues]
        exact (kept.enrolled.mono within).leads acts.leads below
      orderly := by
        intro other another found
        rw [frontEnds] at found
        rw [issues]
        rcases getElem?_set_cases found with ⟨rfl, rfl⟩ | ⟨_, found⟩
        · exact acts.orderly
        · exact (kept.orderly found).mono within
      boxed := by
        intro other another found
        rw [frontEnds] at found
        have longer : hub.scheduler.mailboxes.length ≤ after.scheduler.mailboxes.length := by
          rw [scheduler]
          exact acts.leads.keeps (fun {later act} given _ =>
            Nat.le_trans given (later.length_mailboxes_act act)) (Nat.le_refl _)
        rcases getElem?_set_cases found with ⟨rfl, rfl⟩ | ⟨_, found⟩
        · rw [acts.mailbox]
          exact Nat.lt_of_lt_of_le (kept.boxed here) longer
        · exact Nat.lt_of_lt_of_le (kept.boxed found) longer
      apart := by
        intro first second left right foundLeft foundRight same
        rw [frontEnds] at foundLeft foundRight
        rcases getElem?_set_cases foundLeft with ⟨rfl, rfl⟩ | ⟨_, keptLeft⟩ <;>
          rcases getElem?_set_cases foundRight with ⟨rfl, rfl⟩ | ⟨_, keptRight⟩
        · rfl
        · exact kept.apart here keptRight (acts.mailbox.symm.trans same)
        · exact kept.apart keptLeft here (same.trans acts.mailbox)
        · exact kept.apart keptLeft keptRight same
      sole := by
        intro first second left right id foundLeft foundRight heldLeft heldRight
        rw [frontEnds] at foundLeft foundRight
        rcases getElem?_set_cases foundLeft with ⟨rfl, rfl⟩ | ⟨apartLeft, keptLeft⟩ <;>
          rcases getElem?_set_cases foundRight with ⟨rfl, rfl⟩ | ⟨apartRight, keptRight⟩
        · rfl
        · exact absurd (acts.runs heldLeft) (foreign apartRight keptRight heldRight)
        · exact absurd (acts.runs heldRight) (foreign apartLeft keptLeft heldLeft)
        · exact kept.sole keptLeft keptRight heldLeft heldRight
      owned := by
        intro other another id consumer found held tracked
        rw [frontEnds] at found
        rw [scheduler] at tracked
        have traced := Scheduler.trackedBy_of_leads acts.leads tracked
        rcases getElem?_set_cases found with ⟨rfl, rfl⟩ | ⟨apart, found⟩
        · rw [acts.consumer]
          rcases traced with before | ⟨same, _⟩
          · rcases ours (acts.runs held) with holds | new
            · exact kept.owned here holds before
            · exact absurd (kept.enrolled.tracked before) new
          · exact same
        · rcases traced with before | ⟨_, owns⟩
          · exact kept.owned found held before
          · exact absurd owns (foreign apart found held) }

/-- Nobody acts; at most, nobody listens any more. -/
theorem Kept.passive (kept : hub.Kept) (issues : after.issued = hub.issued)
    (enrolled : after.scheduler.Enrolled hub.issued)
    (longer : hub.scheduler.mailboxes.length ≤ after.scheduler.mailboxes.length)
    (tracks : ∀ {consumer query}, query ∈ after.scheduler.table.trackedBy consumer →
      query ∈ hub.scheduler.table.trackedBy consumer)
    (same : ∀ {index : Nat} {frontEnd : FrontEnd}, after.frontEnds[index]? =
      some frontEnd → ∃ isHeard, hub.frontEnds[index]? = some { frontEnd with isHeard }) :
    after.Kept where
  enrolled := by rwa [issues]
  orderly found := by
    obtain ⟨_, before⟩ := same found
    rw [issues]
    exact { kept.orderly before with }
  boxed found := by
    obtain ⟨_, before⟩ := same found
    have boxed := kept.boxed before
    exact Nat.lt_of_lt_of_le boxed longer
  apart found another eq := by
    obtain ⟨_, before⟩ := same found
    obtain ⟨_, other⟩ := same another
    have apart := kept.apart before other
    exact apart eq
  sole found another held other := by
    obtain ⟨_, before⟩ := same found
    obtain ⟨_, beforeOther⟩ := same another
    have sole := kept.sole before beforeOther held
    exact sole other
  owned found held tracked := by
    obtain ⟨_, before⟩ := same found
    have owned := kept.owned before held (tracks tracked)
    exact owned

/-- Only the scheduler, the front ends and the query ids matter. -/
theorem Kept.same (kept : hub.Kept) (scheduler : after.scheduler = hub.scheduler)
    (frontEnds : after.frontEnds = hub.frontEnds)
    (issues : after.issued = hub.issued) : after.Kept :=
  kept.passive issues (scheduler ▸ kept.enrolled) (scheduler ▸ Nat.le_refl _)
    (fun tracked => scheduler ▸ tracked)
    fun {_ frontEnd} found => ⟨frontEnd.isHeard, frontEnds ▸ found⟩

theorem Kept.spawn (kept : hub.Kept) (consumer : ConsumerId) :
    (hub.spawn consumer).Kept := by
  have news {index : Nat} {frontEnd : FrontEnd}
      (found : (hub.spawn consumer).frontEnds[index]? = some frontEnd) :
      (index = hub.frontEnds.length ∧
        frontEnd = { consumer, mailbox := (hub.scheduler.attach consumer).1 }) ∨
        hub.frontEnds[index]? = some frontEnd := getElem?_append_cases found
  have within {index : Nat} {frontEnd : FrontEnd}
      (found : hub.frontEnds[index]? = some frontEnd) :
      frontEnd.mailbox ≠ (hub.scheduler.attach consumer).1 := fun same => by
    have boxed := kept.boxed found
    rw [same] at boxed
    exact Nat.lt_irrefl _ boxed
  have idle {id : QueryId} :
      ({ consumer, mailbox := (hub.scheduler.attach consumer).1 } : FrontEnd).runs id =
        false := rfl
  exact
    { enrolled :=
        @Scheduler.Enrolled.act _ _ (.attach consumer) kept.enrolled (by rintro _ _ _ ⟨⟩)
      orderly := by
        intro index frontEnd found
        rcases news found with ⟨_, rfl⟩ | found
        · exact FrontEnd.orderly_new _ _ _
        · exact kept.orderly found
      boxed := by
        intro index frontEnd found
        change frontEnd.mailbox.index < (hub.scheduler.mailboxes ++ [({} : Mailbox)]).length
        rw [List.length_append, List.length_singleton]
        rcases news found with ⟨_, rfl⟩ | found
        · exact Nat.lt_succ_self _
        · exact Nat.lt_succ_of_lt (kept.boxed found)
      apart := by
        intro index other frontEnd another found foundOther same
        rcases news found with ⟨rfl, rfl⟩ | found <;>
            rcases news foundOther with ⟨rfl, rfl⟩ | foundOther
        · rfl
        · exact absurd same.symm (within foundOther)
        · exact absurd same (within found)
        · exact kept.apart found foundOther same
      sole := by
        intro index other frontEnd another id found foundOther held heldOther
        rcases news found with ⟨rfl, rfl⟩ | found
        · simp [idle] at held
        · rcases news foundOther with ⟨rfl, rfl⟩ | foundOther
          · simp [idle] at heldOther
          · exact kept.sole found foundOther held heldOther
      owned := by
        intro index frontEnd id tracker found held tracked
        rcases news found with ⟨rfl, rfl⟩ | found
        · simp [idle] at held
        · exact kept.owned found held tracked }

/-- Every move keeps the books. -/
theorem Kept.play (kept : hub.Kept) (move : Move) : (hub.play move).Kept := by
  have own {index : Nat} {frontEnd : FrontEnd}
      (running : hub.running? index = some frontEnd) {id : QueryId}
      (held : frontEnd.runs id = true) : id ∈ hub.issued :=
    (kept.orderly (running?_eq_some running).1).enrolled held
  cases hub.played move with
  | nothing scheduler frontEnds issues => exact kept.same scheduler frontEnds issues
  | spawned scheduler frontEnds issues =>
      exact (kept.spawn _).same scheduler frontEnds issues
  | submitted _ fresh running scheduler frontEnds issues =>
      obtain ⟨here, running'⟩ := running?_eq_some running
      refine kept.acted running ((kept.orderly here).submit running' fresh _)
        (List.subset_cons_self _ _) ?_ ?_ scheduler frontEnds issues
      · rintro id (held | rfl)
        · exact List.mem_cons_of_mem _ (own running held)
        · exact List.mem_cons_self
      · rintro id (held | rfl)
        · exact .inl held
        · exact .inr fresh
  | handled _ running taken scheduler frontEnds issues =>
      obtain ⟨_, rfl⟩ := Scheduler.takeEvent?_eq_some taken
      have here := (running?_eq_some running).1
      exact (kept.take _).acted running ((kept.orderly here).handled _)
        (List.Subset.refl _) (own running) .inl scheduler frontEnds issues
  | stopped _ running scheduler frontEnds issues =>
      have here := (running?_eq_some running).1
      exact kept.acted running (kept.orderly here).stopped_acts (List.Subset.refl _)
        (own running) .inl scheduler frontEnds issues
  | unheard _ scheduler frontEnds issues =>
      refine kept.passive issues (scheduler ▸ kept.enrolled) (scheduler ▸ Nat.le_refl _)
        (fun tracked => scheduler ▸ tracked) fun {other frontEnd} found => ?_
      rw [frontEnds, List.getElem?_modify] at found
      obtain ⟨before, known, rfl⟩ := Option.map_eq_some_iff.mp found
      refine ⟨before.isHeard, ?_⟩
      rw [known]
      split <;> rfl
  | took _ scheduler frontEnds issues =>
      exact kept.passive issues (scheduler ▸ { kept.enrolled with })
        (scheduler ▸ Nat.le_refl _) (fun tracked => by rwa [scheduler] at tracked)
        fun {_ frontEnd} found => ⟨frontEnd.isHeard, frontEnds ▸ found⟩
  | @replied reply _ scheduler frontEnds issues =>
      refine kept.passive issues (scheduler ▸ kept.enrolled.reply reply) (Nat.le_of_eq ?_)
        (fun tracked => ?_) fun {_ frontEnd} found => ⟨frontEnd.isHeard, frontEnds ▸ found⟩
      · rw [scheduler]
        exact (Scheduler.length_mailboxes_deliver
          { hub.scheduler with table := (hub.scheduler.table.reply reply).2 } _).symm
      · rw [scheduler] at tracked
        exact (Scheduler.of_reply kept.enrolled.consistent reply).1 tracked

theorem Reaches.kept {run : RunId} {depth : Nat}
    (reached : (Hub.begin run depth).Reaches hub) : hub.Kept := by
  induction reached with
  | start => exact kept_begin run _
  | play _ ih => exact ih.play _

end Hub

end TicketFlow
