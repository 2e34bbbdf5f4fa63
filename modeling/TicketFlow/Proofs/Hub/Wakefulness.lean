import TicketFlow.Proofs.Hub.Notices
import TicketFlow.Proofs.Session.Waiting

namespace TicketFlow

/-! No front end loses sight of a query.

Front ends go on as long as they are not told to stop and every reduction comes
to an end.  A front end whose consumer is its own is then sent every event that
its queries wait for, and it runs a query until it has told how that ended.
-/

namespace FrontEnd

variable {frontEnd before after later : FrontEnd} {scheduler : Scheduler} {depth : Nat}
  {query held : Query} {id other : QueryId} {notice : Notice} {event : QueryEvent}
  {run : RunId} {mailbox : MailboxId}

section Continuity

/-- The query is run, or it has been told how it ended. -/
def Answers (frontEnd : FrontEnd) (id : QueryId) : Prop :=
  frontEnd.runs id = true ∨ ∃ notice ∈ frontEnd.noticesOf id, notice.isTerminal = true

/-- The front end goes on; while somebody listens, it goes on answering for its queries. -/
structure Continues (before after : FrontEnd) : Prop where
  isRunning : after.isRunning = before.isRunning
  isHeard : after.isHeard = before.isHeard
  answers : before.isHeard = true → ∀ {id}, before.Answers id → after.Answers id

theorem Continues.refl (frontEnd : FrontEnd) : frontEnd.Continues frontEnd :=
  ⟨rfl, rfl, fun _ => id⟩

theorem Continues.trans (first : before.Continues after)
    (second : after.Continues later) : before.Continues later where
  isRunning := second.isRunning.trans first.isRunning
  isHeard := second.isHeard.trans first.isHeard
  answers heard _
    given := second.answers (first.isHeard.trans heard) (first.answers heard given)

theorem mem_notices_of_tell (told : (other, given) ∈ frontEnd.notices) :
    (other, given) ∈ (frontEnd.tell id notice).notices := by
  unfold tell
  split
  · exact List.mem_append_left _ told
  · exact told

theorem continues_tell (frontEnd : FrontEnd) (id : QueryId) (notice : Notice) :
    frontEnd.Continues (frontEnd.tell id notice) where
  isRunning := isRunning_tell
  isHeard := isHeard_tell
  answers _ other given := by
    refine given.imp (fun runs => runs_tell.trans runs)
      fun ⟨last, told, terminal⟩ => ⟨last, ?_, terminal⟩
    exact mem_noticesOf.mpr (mem_notices_of_tell (mem_noticesOf.mp told))

theorem continues_updated (frontEnd : FrontEnd) (depth : Nat) (scheduler : Scheduler)
    (query : Query) : frontEnd.Continues (frontEnd.updated depth scheduler query) where
  isRunning := rfl
  isHeard := rfl
  answers _ other given := by
    refine given.imp (fun runs => ?_) id
    simp [runs_updated, runs]

/-- A query is concluded by telling how it ended. -/
theorem continues_conclude (terminal : notice.isTerminal = true) :
    frontEnd.Continues (frontEnd.conclude scheduler id notice).1 where
  isRunning := isRunning_tell
  isHeard := isHeard_tell
  answers heard other given := by
    have told : (frontEnd.conclude scheduler id notice).1.notices =
        frontEnd.notices ++ [(id, notice)] := by
      simp [conclude, retire, tell, heard]
    by_cases same : other = id
    · subst same
      exact .inr ⟨notice, mem_noticesOf.mpr (by rw [told]; simp), terminal⟩
    · rcases given with runs | ⟨last, member, ends⟩
      · exact .inl (by simp [runs_concluded, runs, same])
      · refine .inr ⟨last, ?_, ends⟩
        rw [mem_noticesOf, told]
        exact List.mem_append_left _ (mem_noticesOf.mp member)

end Continuity

section Step

variable (watched : Session.Watched run query scheduler)
  (ends : (query.step depth scheduler).ends = true)
include watched ends

/-- A watched query is concluded by its step, or goes on waiting. -/
theorem step_watched (frontEnd : FrontEnd) :
    ((∀ mailbox, (query.step depth scheduler).query.Minded run
      (query.step depth scheduler).scheduler mailbox) ∧ frontEnd.step depth scheduler query =
          (frontEnd.updated depth scheduler query, (query.step depth scheduler).scheduler)) ∨
      ∃ notice, notice.isTerminal = true ∧ frontEnd.step depth scheduler query =
        (frontEnd.updated depth scheduler query).conclude
          (query.step depth scheduler).scheduler query.id notice := by
  rcases watched.step ends with
      ⟨result, outcome⟩ | ⟨error, outcome⟩ | ⟨⟨soFar, outcome⟩, still, waits⟩
  · exact .inr ⟨.queryFinished result, rfl, by simp [step, outcome, updated]⟩
  · exact .inr ⟨.queryRejected error, rfl, by simp [step, outcome, updated]⟩
  · refine .inl
      ⟨fun mailbox => Query.minded_of_watched still ?_, by simp [step, outcome, updated]⟩
    rwa [(query.serves_step depth scheduler).1]

/-- The step of a watched query does not end the front end, which answers for the query. -/
theorem continues_step (frontEnd : FrontEnd) :
    frontEnd.Continues (frontEnd.step depth scheduler query).1 ∧
      (frontEnd.isHeard = true →
        (frontEnd.step depth scheduler query).1.Answers query.id) := by
  have updated := frontEnd.continues_updated depth scheduler query
  have goesOn : (frontEnd.updated depth scheduler query).Continues
      (frontEnd.step depth scheduler query).1 := by
    rcases step_watched watched ends frontEnd with
        ⟨_, same⟩ | ⟨notice, terminal, same⟩ <;> rw [same]
    · exact .refl _
    · exact continues_conclude terminal
  have held : (frontEnd.updated depth scheduler query).Answers query.id :=
    .inl (by simp [runs_updated])
  exact ⟨updated.trans goesOn, fun heard => goesOn.answers (updated.isHeard.trans heard) held⟩

/-- What is held after the step was held before, or waits. -/
theorem held_step
    (found : (frontEnd.step depth scheduler query).1.queries.get? id = some held) :
    (query.id ≠ id ∧ frontEnd.queries.get? id = some held) ∨
      (query.id = id ∧
        ∀ mailbox, held.Minded run (frontEnd.step depth scheduler query).2 mailbox) := by
  have inserted
      (found : (frontEnd.updated depth scheduler query).queries.get? id = some held) :
      (query.id ≠ id ∧ frontEnd.queries.get? id = some held) ∨
        (query.id = id ∧ held = (query.step depth scheduler).query) := by
    have found :
        (frontEnd.queries.insert query.id (query.step depth scheduler).query).get? id =
          some held := found
    rw [OrderedMap.get?_insert] at found
    split at found
    next same => exact .inr ⟨same, (Option.some.inj found).symm⟩
    next apart => exact .inl ⟨apart, found⟩
  rcases step_watched watched ends frontEnd with ⟨minded, same⟩ | ⟨notice, _, same⟩ <;>
      rw [same] at found ⊢
  · refine (inserted found).imp_right fun stepped => ⟨stepped.1, ?_⟩
    rw [stepped.2]
    exact minded
  · rw [queries_conclude, OrderedMap.get?_erase] at found
    split at found
    next => cases found
    next apart => exact .inl ((inserted found).resolve_right fun same => apart same.1)

end Step

section Handle

variable (ready : ∀ query, frontEnd.queries.get? event.query = some query →
  scheduler.isQueueClear event.query = true →
  Session.Watched run query scheduler ∧ (query.step depth scheduler).ends = true)
include ready

theorem continues_handle :
    frontEnd.Continues (frontEnd.handle depth scheduler event).1 := by
  rcases frontEnd.handle_cases depth scheduler event with
    ⟨_, same⟩ | ⟨ticket, report, query, _, found, same⟩ | ⟨failure, _, _, same⟩ <;> rw [same]
  · exact .refl _
  · have told := frontEnd.continues_tell event.query (.ticketFinished ticket report)
    split
    next clear =>
      obtain ⟨watched, ends⟩ := ready query found clear
      exact told.trans (continues_step watched ends _).1
    next => exact told
  · exact continues_conclude rfl

/-- A query that is held after an event was held before, and the event is not about it, or
does not clear its queue; or it waits. -/
theorem held_handle (keyed : frontEnd.Keyed)
    (found : (frontEnd.handle depth scheduler event).1.queries.get? id = some held) :
    (event.query ≠ id ∧ frontEnd.queries.get? id = some held) ∨
      (∃ ticket report, event = .ticketFinished id ticket report ∧
        scheduler.isQueueClear id = false ∧ frontEnd.queries.get? id = some held ∧
        (frontEnd.handle depth scheduler event).2 = scheduler) ∨
      ∀ mailbox, held.Minded run (frontEnd.handle depth scheduler event).2 mailbox := by
  rcases frontEnd.handle_cases depth scheduler event with
    ⟨idle, same⟩ | ⟨ticket, report, query, named, known, same⟩ | ⟨failure, _, _, same⟩ <;>
      rw [same] at found ⊢
  · refine .inl ⟨?_, found⟩
    rintro rfl
    simp [runs_of_get? found] at idle
  · split at found
    next clear =>
      obtain ⟨watched, ends⟩ := ready query known clear
      rw [if_pos clear]
      rcases held_step watched ends found with ⟨apart, before⟩ | ⟨_, minded⟩
      · rw [queries_tell] at before
        exact .inl ⟨(keyed known).1 ▸ apart, before⟩
      · exact .inr (.inr minded)
    next unclear =>
      rw [if_neg unclear]
      rw [queries_tell] at found
      by_cases apart : event.query = id
      · subst apart
        exact .inr (.inl ⟨ticket, report, named, by simpa using unclear, found, rfl⟩)
      · exact .inl ⟨apart, found⟩
  · rw [queries_conclude, OrderedMap.get?_erase] at found
    split at found
    next => cases found
    next apart => exact .inl ⟨apart, found⟩

end Handle

/-- A front end that runs and is heard, has its seat, and whose queries are minded. -/
structure Wakeful (run : RunId) (frontEnd : FrontEnd) (scheduler : Scheduler) :
    Prop extends frontEnd.Served scheduler where
  isRunning : frontEnd.isRunning = true
  isHeard : frontEnd.isHeard = true
  minds :
    ∀ {id query}, frontEnd.queries.get? id = some query →
    query.Minded run scheduler frontEnd.mailbox

/-- What a front end does in its own interest does not concern a query
that it goes on running. -/
theorem Acted.minded {issued : List QueryId} {own : QueryId → Prop}
    {acted : FrontEnd × Scheduler} (acts : frontEnd.Acted issued own scheduler acted)
    (consistent : scheduler.table.Consistent)
    (seats : scheduler.Seats frontEnd.consumer frontEnd.mailbox)
    (running : acted.1.isRunning = true) (held : acted.1.runs query.id = true)
    (tracks : scheduler.table.isTracked query.id = true →
      query.id ∈ scheduler.table.trackedBy frontEnd.consumer)
    (minded : query.Minded run scheduler frontEnd.mailbox) :
    query.Minded run acted.2 acted.1.mailbox := by
  rw [acts.mailbox]
  refine minded.upheld consistent tracks (acts.leads.upholds consistent seats ?_)
  exact fun {scheduler act} does => does.unconcerned running held

theorem Wakeful.seated (wakeful : frontEnd.Wakeful run scheduler) :
    scheduler.Seats frontEnd.consumer frontEnd.mailbox :=
  wakeful.seats wakeful.isRunning

end FrontEnd

namespace Hub

variable {hub after : Hub} {move : Move} {index : Nat} {frontEnd became : FrontEnd}
  {id : QueryId} {run : RunId} {context : Context}

/-- The query that the move steps, if it steps one, and the scheduler at that time. -/
def stepped? (hub : Hub) : Move → Option (Query × Scheduler)
  | .submit index id context =>
      if id ∈ hub.issued then none
      else (hub.running? index).map fun frontEnd =>
        ({ id, consumer := frontEnd.consumer, context }, hub.scheduler)
  | .advance index => do
      let frontEnd ← hub.running? index
      let (event, scheduler) ← hub.scheduler.takeEvent? frontEnd.mailbox
      let query ← frontEnd.queries.get? event.query
      if scheduler.isQueueClear event.query then some (query, scheduler) else none
  | _ => none

/-- The reduction that the move makes, if it makes one, comes to an end. -/
def terminates (hub : Hub) (move : Move) : Bool :=
  (hub.stepped? move).all fun (query, scheduler) => (query.step hub.depth scheduler).ends

theorem ends_of_new (running : hub.running? index = some frontEnd)
    (fresh : id ∉ hub.issued)
    (terminates : hub.terminates (.submit index id context) = true) :
    (Query.step { id, consumer := frontEnd.consumer, context } hub.depth
      hub.scheduler).ends = true := by
  simpa [Hub.terminates, stepped?, running, fresh] using terminates

theorem ends_of_read {event : QueryEvent} {source : Scheduler} {query : Query}
    (running : hub.running? index = some frontEnd)
    (taken : hub.scheduler.takeEvent? frontEnd.mailbox = some (event, source))
    (held : frontEnd.queries.get? event.query = some query)
    (clear : source.isQueueClear event.query = true)
    (terminates : hub.terminates (.advance index) = true) :
    (query.step hub.depth source).ends = true := by
  have stepped : hub.stepped? (.advance index) = some (query, source) := by
    simp [stepped?, running, taken, held, clear]
  simpa [Hub.terminates, stepped] using terminates

/-- Front ends are not told to stop, and somebody listens to them.  Contexts are
closed, without curries and without placeholders; reductions come to an end; and
replies are for pending tickets. -/
def Admits (hub : Hub) : Move → Prop
  | .spawn _ | .take => True
  | .submit index id context =>
      context.Fresh ∧ context.Grounded ∧ hub.terminates (.submit index id context) = true
  | .advance index => hub.terminates (.advance index) = true
  | .reply reply => reply.IsLiteral ∧ hub.scheduler.table.isPending reply.ticket = true
  | .shutdown _ | .closeNotices _ => False

section Watching

/-- A new query is attended to, and its first step comes to an end. -/
theorem Kept.ready_new (kept : hub.Kept) (sourced : hub.scheduler.Sourced run)
    (seats : hub.scheduler.Seats frontEnd.consumer frontEnd.mailbox)
    (running : hub.running? index = some frontEnd) (fresh : id ∉ hub.issued)
    (admits : hub.Admits (.submit index id context)) :
    Session.Watched run { id, consumer := frontEnd.consumer, context } hub.scheduler ∧
      (Query.step { id, consumer := frontEnd.consumer, context } hub.depth
        hub.scheduler).ends = true := by
  obtain ⟨unresolved, grounded, ends⟩ := admits
  have consistent := kept.enrolled.consistent
  have untracked : hub.scheduler.table.isTracked id ≠ true := by
    intro tracked
    obtain ⟨consumer, tracks⟩ :=
      (TicketTable.isTracked_iff consistent.distinct).mp tracked
    exact fresh (kept.enrolled.tracked tracks)
  have unfailed : id ∉ hub.scheduler.table.failed := fun failed =>
    untracked (consistent.failedTracked failed)
  refine ⟨⟨⟨?_, sourced.sameRun, unresolved.accounted⟩, grounded⟩, ?_⟩
  · exact sourced.attends consistent seats unfailed fun tracked => absurd tracked untracked
  · exact ends_of_new running fresh ends

variable (kept : hub.Kept) (sourced : hub.scheduler.Sourced run)
  (found : hub.frontEnds[index]? = some frontEnd)
  (wakeful : frontEnd.Wakeful run hub.scheduler)
include kept sourced found wakeful

/-- A query whose queue is clear when an event about it is read is attended to. -/
theorem Kept.watched_read {event : QueryEvent} {source : Scheduler} {query : Query}
    (taken : hub.scheduler.takeEvent? frontEnd.mailbox = some (event, source))
    (held : frontEnd.queries.get? event.query = some query)
    (clear : source.isQueueClear event.query = true) :
    Session.Watched run query source := by
  obtain ⟨named, owned⟩ := (kept.orderly found).keyed held
  rw [← named] at clear
  obtain ⟨unfailed, accounted, grounded⟩ := (wakeful.minds held).taken_clear taken clear
  obtain ⟨_, rfl⟩ := Scheduler.takeEvent?_eq_some taken
  have table := (hub.scheduler.untouched_take frontEnd.mailbox).2
  have consistent : (hub.scheduler.act (.take frontEnd.mailbox)).table.Consistent :=
    Scheduler.consistent_act kept.enrolled.consistent
  have seats : (hub.scheduler.act (.take frontEnd.mailbox)).Seats query.consumer
      frontEnd.mailbox := by
    rw [owned]
    exact Scheduler.seats_act wakeful.seated (by simp) (by simp) (by simp)
  have runs : frontEnd.runs query.id = true := named.symm ▸ FrontEnd.runs_of_get? held
  have sourced : (hub.scheduler.act (.take frontEnd.mailbox)).Sourced run :=
    sourced.acted kept.enrolled.consistent
  refine ⟨⟨sourced.attends consistent seats unfailed fun tracked => ?_, sourced.sameRun,
    accounted⟩, grounded⟩
  rw [owned, table]
  exact kept.tracks found runs (table ▸ tracked)

/-- So is a query that is to be stepped because of an event. -/
theorem Kept.ready_read {event : QueryEvent} {source : Scheduler}
    (running : hub.running? index = some frontEnd)
    (taken : hub.scheduler.takeEvent? frontEnd.mailbox = some (event, source))
    (admits : hub.Admits (.advance index)) :
    ∀ query, frontEnd.queries.get? event.query = some query →
      source.isQueueClear event.query = true →
      Session.Watched run query source ∧ (query.step hub.depth source).ends = true := by
  intro query held clear
  exact ⟨kept.watched_read sourced found wakeful taken held clear,
    ends_of_read running taken held clear admits⟩

end Watching

section Turns

variable (turn : Turn hub move after index frontEnd) (kept : hub.Kept)
  (sourced : hub.scheduler.Sourced run) (found : hub.frontEnds[index]? = some frontEnd)
  (stayed : after.frontEnds[index]? = some became)
  (wakeful : frontEnd.Wakeful run hub.scheduler) (admits : hub.Admits move)
include turn kept sourced found stayed wakeful admits

/-- An admitted move does not stop a front end that has its seat. -/
theorem Turn.continues : frontEnd.Continues became := by
  cases turn with
  | aside leads scheduler same issues heard =>
      obtain rfl := Option.some.inj (same.symm.trans stayed)
      rcases heard with rfl | rfl
      · exact .refl frontEnd
      · exact admits.elim
  | submitted is fresh running scheduler same issues =>
      obtain rfl := Option.some.inj (same.symm.trans stayed)
      subst is
      obtain ⟨watched, ends⟩ := kept.ready_new sourced wakeful.seated running fresh admits
      exact (FrontEnd.continues_step watched ends frontEnd).1
  | handled is running taken scheduler same issues =>
      obtain rfl := Option.some.inj (same.symm.trans stayed)
      subst is
      exact FrontEnd.continues_handle
        (kept.ready_read sourced found wakeful running taken admits)
  | stopped cause running scheduler same issues =>
      rcases cause with rfl | closed
      · exact admits.elim
      · have addressed := OrderedMap.mem_of_get? wakeful.seated.address
        have apart := List.all_eq_true.mp closed _ addressed
        simp at apart
  | replied is scheduler same issues =>
      obtain rfl := Option.some.inj (same.symm.trans stayed)
      exact .refl frontEnd

/-- After an admitted move, every query that the front end holds is minded. -/
theorem Turn.minds (orderly : became.Orderly after.issued) {query : Query}
    (held : became.queries.get? id = some query) :
    query.Minded run after.scheduler became.mailbox := by
  have consistent := kept.enrolled.consistent
  have goesOn :=
    (turn.continues kept sourced found stayed wakeful admits).isRunning.trans wakeful.isRunning
  have tracks {query : Query} (before : frontEnd.queries.get? id = some query) :
      hub.scheduler.table.isTracked query.id = true →
      query.id ∈ hub.scheduler.table.trackedBy frontEnd.consumer := by
    refine kept.tracks found ?_
    rw [((kept.orderly found).keyed before).1]
    exact FrontEnd.runs_of_get? before
  have runs : became.runs query.id = true := by
    rw [(orderly.keyed held).1]
    exact FrontEnd.runs_of_get? held
  cases turn with
  | @aside source ready isHeard leads scheduler same issues _ =>
      obtain rfl := Option.some.inj (same.symm.trans stayed)
      have upholds : Scheduler.Upholds frontEnd.consumer frontEnd.mailbox query.id
          hub.scheduler source :=
        leads.upholds consistent wakeful.seated fun {_ _} aside => aside.1 query.id
      rw [scheduler]
      refine (wakeful.minds held).upheld consistent (tracks held) ?_
      exact { upholds with seats := { upholds.seats with } }
  | @submitted id context is fresh running scheduler same issues =>
      obtain rfl := Option.some.inj (same.symm.trans stayed)
      subst is
      obtain ⟨watched, ends⟩ := kept.ready_new sourced wakeful.seated running fresh admits
      rw [scheduler]
      rcases FrontEnd.held_step watched ends held with ⟨_, before⟩ | ⟨_, minded⟩
      · have goes := (running?_eq_some running).2
        exact ((kept.orderly found).submit goes fresh context).minded consistent
          wakeful.seated goesOn runs (tracks before) (wakeful.minds before)
      · exact minded _
  | @handled event source is running taken scheduler same issues =>
      obtain rfl := Option.some.inj (same.symm.trans stayed)
      subst is
      rw [scheduler]
      rcases FrontEnd.held_handle (kept.ready_read sourced found wakeful running taken admits)
          (kept.orderly found).keyed held with ⟨apart, before⟩ |
          ⟨ticket, report, finished, unclear, before, unchanged⟩ | minded
      · have named := ((kept.orderly found).keyed before).1
        have minded := (wakeful.minds before).taken_other taken (named ▸ apart)
        obtain ⟨_, rfl⟩ := Scheduler.takeEvent?_eq_some taken
        have table := (hub.scheduler.untouched_take frontEnd.mailbox).2
        refine ((kept.orderly found).handled event).minded
          (Scheduler.consistent_act consistent)
          (Scheduler.seats_act wakeful.seated (by simp) (by simp) (by simp))
          goesOn runs ?_ minded
        rw [table]
        exact tracks before
      · have named := ((kept.orderly found).keyed before).1
        rw [unchanged, ((kept.orderly found).handled event).mailbox]
        exact (wakeful.minds before).taken_unclear taken (named ▸ finished) (named ▸ unclear)
      · exact minded _
  | stopped cause running scheduler same issues =>
      obtain rfl := Option.some.inj (same.symm.trans stayed)
      simp [FrontEnd.stop] at goesOn
  | replied is scheduler same issues =>
      obtain rfl := Option.some.inj (same.symm.trans stayed)
      subst is
      rw [scheduler]
      exact (wakeful.minds held).replied wakeful.seated consistent (tracks held) admits.2

end Turns

/-- The books are kept, whoever is alone is wakeful, and if everybody is, somebody
answers for every query. -/
structure Vigilant (run : RunId) (hub : Hub) : Prop where
  kept : hub.Kept
  sourced : hub.scheduler.Sourced run
  wakeful :
    ∀ {index : Nat} {frontEnd : FrontEnd}, hub.Alone index →
    hub.frontEnds[index]? = some frontEnd → frontEnd.Wakeful run hub.scheduler
  answered : (∀ index, hub.Alone index) → ∀ {id : QueryId}, id ∈ hub.issued →
    ∃ frontEnd ∈ hub.frontEnds, frontEnd.Answers id

theorem vigilant_begin (run : RunId) (depth : Nat) :
    (Hub.begin run depth).Vigilant run where
  kept := kept_begin run depth
  sourced := Scheduler.sourced_start run
  wakeful _ found := by simp [begin] at found
  answered _ _ issued := absurd issued List.not_mem_nil

theorem Vigilant.sourced_play (vigilant : hub.Vigilant run) (admits : hub.Admits move) :
    (hub.play move).scheduler.Sourced run := by
  have consistent := vigilant.kept.enrolled.consistent
  rcases vigilant.kept.leads_play move with
      leads | ⟨rfl, scheduler⟩ | ⟨reply, rfl, scheduler⟩
  · exact vigilant.sourced.leads consistent leads
  · rw [scheduler]
    exact { vigilant.sourced with }
  · rw [scheduler]
    exact vigilant.sourced.replied consistent admits.1

/-- A front end that is alone after an admitted move is wakeful, and has gone on. -/
theorem Vigilant.wakeful_play (vigilant : hub.Vigilant run)
    (admits : hub.Admits move) (alone : (hub.play move).Alone index)
    (stayed : (hub.play move).frontEnds[index]? = some became) :
    became.Wakeful run (hub.play move).scheduler ∧
      ∀ {frontEnd : FrontEnd}, hub.frontEnds[index]? = some frontEnd →
        frontEnd.Continues became := by
  have kept := vigilant.kept
  have aloneBefore := kept.alone_before alone
  have orderly := (kept.play move).orderly stayed
  have continues {frontEnd : FrontEnd}
      (found : hub.frontEnds[index]? = some frontEnd) : frontEnd.Continues became :=
    (kept.turn move alone found).continues kept vigilant.sourced found stayed
      (vigilant.wakeful aloneBefore found) admits
  refine ⟨?_, continues⟩
  rcases hub.appears move stayed with ⟨frontEnd, found⟩ | ⟨consumer, rfl, scheduler⟩
  · have wakeful := vigilant.wakeful aloneBefore found
    have turn := kept.turn move alone found
    obtain ⟨_, same, _, mailbox⟩ := kept.stays move found
    obtain rfl := Option.some.inj (same.symm.trans stayed)
    exact
      { turn.served kept wakeful.toServed found stayed mailbox orderly with
        isRunning := (continues found).isRunning.trans wakeful.isRunning
        isHeard := (continues found).isHeard.trans wakeful.isHeard
        minds := fun held =>
          turn.minds kept vigilant.sourced found stayed wakeful admits orderly held }
  · rw [scheduler]
    exact { FrontEnd.served_new hub.scheduler consumer with
      isRunning := rfl
      isHeard := rfl
      minds := fun held => nomatch held }

/-- Somebody answers for a query that is submitted, and whoever answers for a
query goes on to do so. -/
theorem Vigilant.answered_play (vigilant : hub.Vigilant run)
    (admits : hub.Admits move) (alone : ∀ index, (hub.play move).Alone index)
    {id : QueryId} (issued : id ∈ (hub.play move).issued) :
    ∃ frontEnd ∈ (hub.play move).frontEnds, frontEnd.Answers id := by
  have kept := vigilant.kept
  have before (known : id ∈ hub.issued) : ∃ frontEnd ∈ (hub.play move).frontEnds,
      frontEnd.Answers id := by
    obtain ⟨frontEnd, member, answers⟩ :=
      vigilant.answered (fun index => kept.alone_before (alone index)) known
    obtain ⟨index, found⟩ := List.mem_iff_getElem?.mp member
    obtain ⟨became, stayed, _⟩ := kept.stays move found
    have heard := (vigilant.wakeful (kept.alone_before (alone index)) found).isHeard
    exact ⟨became, List.mem_of_getElem? stayed,
      ((vigilant.wakeful_play admits (alone index) stayed).2 found).answers heard answers⟩
  cases hub.played move with
  | @submitted index frontEnd _ context is fresh running scheduler frontEnds issues =>
      rcases List.mem_cons.mp (issues ▸ issued) with rfl | known
      · have found := (running?_eq_some running).1
        have wakeful := vigilant.wakeful (kept.alone_before (alone index)) found
        subst is
        obtain ⟨watched, ends⟩ :=
          kept.ready_new vigilant.sourced wakeful.seated running fresh admits
        exact ⟨_, List.mem_of_getElem? (frontEnds_acted found frontEnds).1,
          (FrontEnd.continues_step watched ends frontEnd).2 wakeful.isHeard⟩
      · exact before known
  | nothing _ _ issues | spawned _ _ issues | handled _ _ _ _ _ issues
  | stopped _ _ _ _ issues | unheard _ _ _ issues | took _ _ _ issues
  | replied _ _ _ issues =>
      exact before (issues ▸ issued)

/-- Admitted moves keep watch. -/
theorem Vigilant.play (vigilant : hub.Vigilant run) (admits : hub.Admits move) :
    (hub.play move).Vigilant run where
  kept := vigilant.kept.play move
  sourced := vigilant.sourced_play admits
  wakeful alone found := (vigilant.wakeful_play admits alone found).1
  answered alone _ issued := vigilant.answered_play admits alone issued

end Hub

end TicketFlow
