import TicketFlow.Proofs.Hub.Turns

namespace TicketFlow

/-! What a front end tells about a query.

It tells of finished tickets first, and then at most once how the query ended.
Once a ticket that the query waits for has failed, that can only be its failure:
the query is marked until the front end has read about it, and a marked query is
not stepped.
-/

/-- Finished tickets, and then at most one last notice. -/
def Notice.Concludes (notices : List Notice) : Prop :=
  ∃ (progress : List Notice) (last : Option Notice), notices = progress ++ last.toList ∧
    (∀ notice ∈ progress, ∃ ticket report, notice = .ticketFinished ticket report) ∧
    ∀ notice ∈ last, notice.isTerminal = true

theorem Notice.concludes_of_pairwise {notices : List Notice}
    (ordered : notices.Pairwise fun earlier _ => earlier.isTerminal = false) :
    Notice.Concludes notices := by
  induction notices with
  | nil => exact ⟨[], none, rfl, by simp, by simp⟩
  | cons notice rest ih =>
      obtain ⟨first, ordered⟩ := List.pairwise_cons.mp ordered
      cases terminal : notice.isTerminal with
      | true =>
          have nothing : rest = [] := by
            refine List.eq_nil_iff_forall_not_mem.mpr fun later member => ?_
            simp [first later member] at terminal
          exact ⟨[], some notice, by simp [nothing], by simp, by simp [terminal]⟩
      | false =>
          obtain ⟨progress, last, same, finished, ends⟩ := ih ordered
          refine ⟨notice :: progress, last, by simp [same], ?_, ends⟩
          rintro told (_ | ⟨_, member⟩)
          · cases notice with
            | ticketFinished ticket report => exact ⟨ticket, report, rfl⟩
            | queryFinished | queryFailed | queryRejected =>
                simp [Notice.isTerminal] at terminal
          · exact finished told member

namespace FrontEnd

variable {frontEnd : FrontEnd} {scheduler : Scheduler} {depth : Nat}
  {issued : List QueryId} {query : Query} {id other : QueryId} {notice given : Notice}
  {event : QueryEvent} {failure : Failure}

/-- What was told about one query, oldest first. -/
def noticesOf (frontEnd : FrontEnd) (id : QueryId) : List Notice :=
  frontEnd.notices.filterMap fun entry => if entry.1 = id then some entry.2 else none

theorem mem_noticesOf :
    notice ∈ frontEnd.noticesOf id ↔ (id, notice) ∈ frontEnd.notices := by
  simp only [noticesOf, List.mem_filterMap]
  constructor
  · rintro ⟨⟨told, _⟩, member, same⟩
    split at same
    next named =>
      obtain rfl : told = id := named
      obtain rfl := Option.some.inj same
      exact member
    next => simp at same
  · intro member
    exact ⟨(id, notice), member, by simp⟩

theorem Orderly.concludes (orderly : frontEnd.Orderly issued) (id : QueryId) :
    Notice.Concludes (frontEnd.noticesOf id) := by
  refine Notice.concludes_of_pairwise (List.pairwise_filterMap.mpr (orderly.ordered.imp ?_))
  rintro ⟨told, earlier⟩ ⟨next, later⟩ before notice same _ another
  split at same
  next named =>
    split at another
    next namedToo =>
      obtain rfl := Option.some.inj same
      exact before (named.trans namedToo.symm)
    next => simp at another
  next => simp at same

theorem mem_notices_conclude
    (told : (other, notice) ∈ (frontEnd.conclude scheduler id given).1.notices) :
    (other, notice) ∈ frontEnd.notices ∨ (other = id ∧ notice = given) := by
  have told :
      (other, notice) ∈ ((frontEnd.retire scheduler id).1.tell id given).notices := told
  have before := mem_notices_tell told
  exact before

/-- A step tells only about its own query, and nothing if that has failed. -/
theorem mem_notices_step
    (told : (other, notice) ∈ (frontEnd.step depth scheduler query).1.notices) :
    (other, notice) ∈ frontEnd.notices ∨
      (other = query.id ∧ scheduler.isFailed query.id = false) := by
  rcases frontEnd.step_cases depth scheduler query with
      ⟨_, ends⟩ | ⟨_, unfailed, _, ends⟩ | ⟨_, _, _, ends⟩ <;> rw [ends] at told
  · exact .inl told
  · exact (mem_notices_conclude told).imp id fun new => ⟨new.1, unfailed⟩
  · exact .inl told

/-- A front end ends a query that is marked failed only by what an event
says about its failure. -/
theorem mem_notices_handle (keyed : frontEnd.Keyed)
    (told : (other, notice) ∈ (frontEnd.handle depth scheduler event).1.notices) :
    (other, notice) ∈ frontEnd.notices ∨ frontEnd.runs other = true ∧
      (notice.isTerminal = false ∨ scheduler.isFailed other = false ∨
        ∃ failure, event = .queryFailed other failure ∧ notice = .queryFailed failure) := by
  rcases frontEnd.handle_cases depth scheduler event with
    ⟨_, same⟩ | ⟨ticket, report, query, _, found, same⟩ | ⟨failure, named, held, same⟩ <;>
      rw [same] at told
  · exact .inl told
  · have held := runs_of_get? found
    have progress
        (told : (other, notice) ∈
        (frontEnd.tell event.query (.ticketFinished ticket report)).notices) :
        (other, notice) ∈ frontEnd.notices ∨
        frontEnd.runs other = true ∧ notice.isTerminal = false := by
      rcases mem_notices_tell told with before | ⟨rfl, rfl⟩
      · exact .inl before
      · exact .inr ⟨held, rfl⟩
    split at told
    · rcases mem_notices_step told with before | ⟨rfl, unfailed⟩
      · exact (progress before).imp id fun ⟨runs, unended⟩ => ⟨runs, .inl unended⟩
      · exact .inr ⟨by rw [(keyed found).1, held], .inr (.inl unfailed)⟩
    · exact (progress told).imp id fun ⟨runs, unended⟩ => ⟨runs, .inl unended⟩
  · rcases mem_notices_conclude told with before | ⟨rfl, rfl⟩
    · exact .inl before
    · exact .inr ⟨held, .inr (.inr ⟨failure, named, rfl⟩)⟩

/-- A front end with a seat, whose mail about failures is not outdated. -/
structure Served (frontEnd : FrontEnd) (scheduler : Scheduler) : Prop where
  seats : frontEnd.isRunning = true → scheduler.Seats frontEnd.consumer frontEnd.mailbox
  news :
    ∀ {id failure}, .queryFailed id failure ∈ (scheduler.mailbox frontEnd.mailbox).events →
    frontEnd.runs id = true → id ∈ scheduler.table.failed

/-- The query failed: if it is still run, the front end is to read of this
failure, and of no other. -/
structure Doomed (frontEnd : FrontEnd) (scheduler : Scheduler) (id : QueryId)
    (failure : Failure) : Prop where
  told :
    ∀ {notice}, (id, notice) ∈ frontEnd.notices → notice.isTerminal = true →
    notice = .queryFailed failure
  failed : frontEnd.runs id = true → id ∈ scheduler.table.failed
  mailed :
    ∀ {other}, .queryFailed id other ∈ (scheduler.mailbox frontEnd.mailbox).events →
    frontEnd.runs id = true → other = failure

theorem served_new (scheduler : Scheduler) (consumer : ConsumerId) :
    ({ consumer, mailbox := (scheduler.attach consumer).1 } : FrontEnd).Served
      (scheduler.attach consumer).2 where
  seats _ :=
    { address := OrderedMap.get?_insert_self
      held := by
        have new :
            (scheduler.attach consumer).2.mailbox (scheduler.attach consumer).1 = {} := by
          rw [Scheduler.mailbox_attach]
          exact if_pos rfl
        rw [new] }
  news _ held := by simp [runs, OrderedMap.contains] at held

end FrontEnd

namespace Hub

variable {hub after later : Hub} {move : Move} {index depth : Nat}
  {frontEnd became : FrontEnd} {id : QueryId} {failure : Failure}
  {reply : Reply} {run : RunId}

/-- A query that failed stays marked as long as it is run. -/
theorem Turn.failed (turn : Turn hub move after index frontEnd)
    (kept : hub.Kept) (served : frontEnd.Served hub.scheduler)
    (found : hub.frontEnds[index]? = some frontEnd)
    (stayed : after.frontEnds[index]? = some became)
    (orderly : became.Orderly after.issued) (held : became.runs id = true)
    (before : frontEnd.runs id = true) (failed : id ∈ hub.scheduler.table.failed) :
    id ∈ after.scheduler.table.failed := by
  have consistent := kept.enrolled.consistent
  have tracked := kept.tracks found before (consistent.failedTracked failed)
  rcases (turn.sustains kept found stayed orderly held).2 with
      sustained | ⟨rfl, reply, scheduler⟩
  · exact sustained.failed tracked failed
  · have running := (kept.orderly found).isRunning held
    have spares :=
      @Scheduler.spares_reply _ _ _ id (served.seats running) consistent reply
    rw [scheduler]
    refine spares.failed ?_
      ((TicketTable.mem_failed_reply consistent.toIndexed).mpr (.inl failed))
    exact (TicketTable.trackedBy_congr TicketTable.tracking_reply).symm ▸ tracked

/-- The failure of a ticket that a query waits for marks the query. -/
theorem Kept.fails (kept : hub.Kept) (served : frontEnd.Served hub.scheduler)
    (found : hub.frontEnds[index]? = some frontEnd) (held : frontEnd.runs id = true)
    (waits : reply.ticket ∈ hub.scheduler.table.outstandingOf id)
    (fails : (hub.scheduler.table.standingOf reply.ticket).verdict reply = .fails failure) :
    id ∈ (hub.scheduler.reply reply).table.failed := by
  have consistent := kept.enrolled.consistent
  have tracked := kept.tracks found held (consistent.tracked waits)
  have running := (kept.orderly found).isRunning held
  have spares := @Scheduler.spares_reply _ _ _ id (served.seats running) consistent reply
  refine spares.failed ?_
    ((TicketTable.mem_failed_reply consistent.toIndexed).mpr (.inr ⟨waits, failure, fails⟩))
  exact (TicketTable.trackedBy_congr TicketTable.tracking_reply).symm ▸ tracked

/-- Of a failure that is in the mailbox one could read before, or the reply told of it. -/
theorem Kept.news_reply (kept : hub.Kept) {mailbox : MailboxId}
    (mailed : .queryFailed id failure ∈ ((hub.scheduler.reply reply).mailbox mailbox).events) :
    .queryFailed id failure ∈ (hub.scheduler.mailbox mailbox).events ∨
      reply.ticket ∈ hub.scheduler.table.outstandingOf id ∧
        (hub.scheduler.table.standingOf reply.ticket).verdict reply = .fails failure := by
  have consistent := kept.enrolled.consistent
  rcases Scheduler.mailed_of_deliver mailed with before | ⟨consumer, delivered⟩
  · exact .inl before
  · have delivered : (consumer, .queryFailed id failure) ∈
        (hub.scheduler.table.reply reply).1 := delivered
    refine .inr ⟨(consistent.concerned_of_mem_reply delivered).1, ?_⟩
    cases verdict : (hub.scheduler.table.standingOf reply.ticket).verdict reply with
    | ignored => simp [TicketTable.reply_ignored verdict] at delivered
    | accepted =>
        obtain ⟨report, told⟩ := consistent.mem_reply_accepted verdict
        obtain ⟨_, _, _, same⟩ := told.mp delivered
        cases same
    | fails other =>
        obtain ⟨_, _, _, same⟩ := (consistent.mem_reply_fails verdict).mp delivered
        rw [(QueryEvent.queryFailed.inj same).2]

/-- Mail about the failure of a query that is run was there before the move, or
the reply told of it. -/
theorem Turn.news (turn : Turn hub move after index frontEnd) (kept : hub.Kept)
    (found : hub.frontEnds[index]? = some frontEnd)
    (stayed : after.frontEnds[index]? = some became)
    (same : became.mailbox = frontEnd.mailbox) (orderly : became.Orderly after.issued)
    (held : became.runs id = true)
    (mailed : .queryFailed id failure ∈ (after.scheduler.mailbox became.mailbox).events) :
    frontEnd.runs id = true ∧
      (.queryFailed id failure ∈ (hub.scheduler.mailbox frontEnd.mailbox).events ∨
        ∃ reply, after.scheduler = hub.scheduler.reply reply ∧
          reply.ticket ∈ hub.scheduler.table.outstandingOf id ∧
          (hub.scheduler.table.standingOf reply.ticket).verdict reply = .fails failure) := by
  obtain ⟨ours, sustained | ⟨rfl, reply, scheduler⟩⟩ :=
    turn.sustains kept found stayed orderly held
  · have before := sustained.mailed (same ▸ mailed)
    exact ⟨ours.resolve_right (not_not_intro (kept.enrolled.mailed before)), .inl before⟩
  · rw [scheduler] at mailed
    exact ⟨held, (kept.news_reply mailed).imp_right fun told => ⟨reply, scheduler, told⟩⟩

theorem Turn.served (turn : Turn hub move after index frontEnd)
    (kept : hub.Kept) (served : frontEnd.Served hub.scheduler)
    (found : hub.frontEnds[index]? = some frontEnd)
    (stayed : after.frontEnds[index]? = some became)
    (same : became.mailbox = frontEnd.mailbox) (orderly : became.Orderly after.issued) :
    became.Served after.scheduler where
  seats running := turn.seats kept found stayed running served.seats
  news := by
    intro id failure mailed held
    obtain ⟨before, news | ⟨reply, scheduler, waits, fails⟩⟩ :=
      turn.news kept found stayed same orderly held mailed
    · exact turn.failed kept served found stayed orderly held before (served.news news before)
    · rw [scheduler]
      exact kept.fails served found before waits fails

/-- The notices that a turn adds do not end a query that is marked failed, unless
they tell of its failure. -/
theorem Turn.told (turn : Turn hub move after index frontEnd) (kept : hub.Kept)
    (found : hub.frontEnds[index]? = some frontEnd)
    (stayed : after.frontEnds[index]? = some became) (known : id ∈ hub.issued)
    (failed : frontEnd.runs id = true → id ∈ hub.scheduler.table.failed) {notice : Notice}
    (told : (id, notice) ∈ became.notices) (terminal : notice.isTerminal = true) :
    (id, notice) ∈ frontEnd.notices ∨
      frontEnd.runs id = true ∧ ∃ failure, notice = .queryFailed failure ∧
      .queryFailed id failure ∈ (hub.scheduler.mailbox frontEnd.mailbox).events := by
  cases turn with
  | aside leads scheduler same issues _ =>
      obtain rfl := Option.some.inj (same.symm.trans stayed)
      exact .inl told
  | submitted _ fresh running scheduler same issues =>
      obtain rfl := Option.some.inj (same.symm.trans stayed)
      rcases FrontEnd.mem_notices_step told with before | ⟨rfl, _⟩
      · exact .inl before
      · exact absurd known fresh
  | @handled event source _ running taken scheduler same issues =>
      obtain rfl := Option.some.inj (same.symm.trans stayed)
      obtain ⟨mail, rfl⟩ := Scheduler.takeEvent?_eq_some taken
      rcases FrontEnd.mem_notices_handle (kept.orderly found).keyed told with
        before | ⟨held, unended | unfailed | ⟨failure, rfl, rfl⟩⟩
      · exact .inl before
      · simp [terminal] at unended
      · have marked := failed held
        have table := (hub.scheduler.untouched_take frontEnd.mailbox).2
        simp [Scheduler.isFailed, TicketTable.isFailed, table, marked] at unfailed
      · exact .inr ⟨held, failure, rfl, mail ▸ List.mem_cons_self⟩
  | stopped _ running scheduler same issues =>
      obtain rfl := Option.some.inj (same.symm.trans stayed)
      exact .inl told
  | replied _ scheduler same issues =>
      obtain rfl := Option.some.inj (same.symm.trans stayed)
      exact .inl told

theorem Turn.doomed (turn : Turn hub move after index frontEnd)
    (kept : hub.Kept) (served : frontEnd.Served hub.scheduler)
    (found : hub.frontEnds[index]? = some frontEnd)
    (stayed : after.frontEnds[index]? = some became)
    (same : became.mailbox = frontEnd.mailbox) (orderly : became.Orderly after.issued)
    (known : id ∈ hub.issued) (doomed : frontEnd.Doomed hub.scheduler id failure) :
    became.Doomed after.scheduler id failure where
  told := by
    intro notice told terminal
    rcases turn.told kept found stayed known doomed.failed told terminal with
        before | ⟨held, other, rfl, mailed⟩
    · exact doomed.told before terminal
    · rw [doomed.mailed mailed held]
  failed held := by
    have before :=
      (turn.sustains kept found stayed orderly held).1.resolve_right (not_not_intro known)
    exact turn.failed kept served found stayed orderly held before (doomed.failed before)
  mailed := by
    intro other mailed held
    obtain ⟨before, news | ⟨_, _, waits, _⟩⟩ :=
      turn.news kept found stayed same orderly held mailed
    · exact doomed.mailed news before
    · exact absurd waits (kept.enrolled.idle (doomed.failed before))

/-- A query that fails is doomed to that failure. -/
theorem Kept.doomed (kept : hub.Kept) (served : frontEnd.Served hub.scheduler)
    (found : hub.frontEnds[index]? = some frontEnd) (held : frontEnd.runs id = true)
    (waits : reply.ticket ∈ hub.scheduler.table.outstandingOf id)
    (fails : (hub.scheduler.table.standingOf reply.ticket).verdict reply = .fails failure) :
    frontEnd.Doomed (hub.scheduler.reply reply) id failure where
  told := by
    intro notice told terminal
    rw [(kept.orderly found).unconcluded held told] at terminal
    cases terminal
  failed _ := kept.fails served found held waits fails
  mailed := by
    intro other mailed _
    rcases kept.news_reply mailed with before | ⟨_, same⟩
    · exact absurd waits (kept.enrolled.idle (served.news before held))
    · exact TicketTable.Verdict.fails.inj (same.symm.trans fails)

theorem Reaches.served (reached : (Hub.begin run depth).Reaches hub)
    (alone : hub.Alone index) (found : hub.frontEnds[index]? = some frontEnd) :
    frontEnd.Served hub.scheduler := by
  induction reached generalizing frontEnd with
  | start => cases found
  | @play hub move reached ih =>
      have kept := reached.kept
      rcases hub.appears move found with ⟨before, here⟩ | ⟨consumer, rfl, scheduler⟩
      · obtain ⟨_, stayed, _, mailbox⟩ := kept.stays move here
        obtain rfl := Option.some.inj (stayed.symm.trans found)
        exact (kept.turn move alone here).served kept (ih (kept.alone_before alone) here)
          here found mailbox ((kept.play move).orderly found)
      · rw [scheduler]
        exact FrontEnd.served_new hub.scheduler consumer

theorem Reaches.alone_before (reached : (Hub.begin run depth).Reaches hub)
    (onward : hub.Reaches later) (alone : later.Alone index) : hub.Alone index := by
  induction onward with
  | start => exact alone
  | @play middle move onward ih =>
      exact ih ((reached.trans onward).kept.alone_before alone)

/-- A doomed query stays so, whatever happens. -/
theorem Reaches.doomed (reached : (Hub.begin run depth).Reaches hub)
    (onward : hub.Reaches later) (found : hub.frontEnds[index]? = some frontEnd)
    (known : id ∈ hub.issued)
    (doomed : frontEnd.Doomed hub.scheduler id failure) (alone : later.Alone index) :
    ∃ last, later.frontEnds[index]? = some last ∧ last.Doomed later.scheduler id failure ∧
      id ∈ later.issued := by
  induction onward with
  | start => exact ⟨frontEnd, found, doomed, known⟩
  | @play middle move onward ih =>
      have reached := reached.trans onward
      have kept := reached.kept
      have aloneBefore := kept.alone_before alone
      obtain ⟨before, here, doomed, known⟩ := ih aloneBefore
      obtain ⟨last, stayed, _, mailbox⟩ := kept.stays move here
      have turn := kept.turn move alone here
      exact ⟨last, stayed, turn.doomed kept (reached.served aloneBefore here) here stayed
        mailbox ((kept.play move).orderly stayed) known doomed, turn.issues_subset known⟩

/-- Of every query, a front end tells of finished tickets, and then at most once how it
ended.  If a ticket that a query of it waits for fails while it is run, nothing but that
failure is told as its end. -/
theorem Reaches.notices_conclude (reached : (Hub.begin run depth).Reaches hub) :
    (∀ {index : Nat} {frontEnd : FrontEnd}, hub.frontEnds[index]? = some frontEnd →
        ∀ id, Notice.Concludes (frontEnd.noticesOf id)) ∧
      ∀ {index : Nat} {frontEnd : FrontEnd} {id : QueryId} {reply : Reply}
        {failure : Failure}, hub.frontEnds[index]? = some frontEnd →
        frontEnd.runs id = true →
        reply.ticket ∈ hub.scheduler.table.outstandingOf id →
        (hub.scheduler.table.standingOf reply.ticket).verdict reply = .fails failure →
        ∀ {later : Hub} {last : FrontEnd}, (hub.play (.reply reply)).Reaches later →
          later.Alone index → later.frontEnds[index]? = some last →
          ∀ notice ∈ last.noticesOf id, notice.isTerminal = true →
            notice = .queryFailed failure := by
  have kept := reached.kept
  refine ⟨fun found id => (kept.orderly found).concludes id, ?_⟩
  intro index frontEnd id reply failure found held waits fails later last onward alone
    latest notice told terminal
  have played : (hub.play (.reply reply)).frontEnds[index]? = some frontEnd := by
    rw [Hub.play, (hub.frame_reply reply).1, found]
  have known : id ∈ (hub.play (.reply reply)).issued := by
    rw [Hub.play, (hub.frame_reply reply).2.1]
    exact (kept.orderly found).enrolled held
  have replied : (Hub.begin run depth).Reaches (hub.play (.reply reply)) := reached.play
  have aloneReplied : (hub.play (.reply reply)).Alone index :=
    replied.alone_before onward alone
  have aloneBefore : hub.Alone index := kept.alone_before aloneReplied
  have doomed : frontEnd.Doomed (hub.play (.reply reply)).scheduler id failure := by
    rw [Hub.play, hub.scheduler_reply reply]
    exact kept.doomed (reached.served aloneBefore found) found held waits fails
  obtain ⟨_, same, doomed, _⟩ := replied.doomed onward played known doomed alone
  obtain rfl := Option.some.inj (same.symm.trans latest)
  exact doomed.told (FrontEnd.mem_noticesOf.mp told) terminal

section Samples

/-- Two tickets of one query. -/
def pairContext : Context where
  arena := { blocks := #[{}] }
  root := ⟨0⟩
  targets := [[.apply [.lambda (.foreign Engine.fetchTask)] [("url", [.str "a"])] 1 false,
    .apply [.lambda (.foreign Engine.fetchTask)] [("url", [.str "b"])] 1 false]]

def siblingTicket : Ticket :=
  Ticket.create Engine.fetchRun Engine.fetchTask [("url", [.str "b"])]

def pairAsked : Hub :=
  ((Hub.start Engine.fetchRun).play (.spawn ⟨1⟩)).play (.submit 0 ⟨0⟩ pairContext)

/-- One ticket is finished, and nobody has read about it. -/
def pairFinished : Hub :=
  pairAsked.play (.reply (.finished siblingTicket.id [[.str "p"]] []))

def pairFailure : Failure where
  ticket := Engine.fetchTicket.id
  lambda := "fetch"
  script := Engine.fetchTask.script
  stdout := ""
  stderr := "unreachable"

/-- The other one fails meanwhile. -/
def pairRead : Hub :=
  ((pairFinished.play (.reply (.failed pairFailure))).play (.advance 0)).play (.advance 0)

theorem evaluated_pairRead :
    (pairFinished.frontEnds.map fun frontEnd => (frontEnd.consumer, frontEnd.runs ⟨0⟩)) =
      [(⟨1⟩, true)] ∧ pairFinished.scheduler.table.outstandingOf ⟨0⟩ =
      [pairFailure.ticket] ∧ (pairRead.frontEnds.map fun frontEnd =>
        (frontEnd.consumer, (frontEnd.noticesOf ⟨0⟩).map Notice.isTerminal)) =
        [(⟨1⟩, [false, true])] := by
  decide +kernel

/-- After the ticket that is finished, the failure is told as the end of the query. -/
theorem notices_conclude_pairRead :
    ∃ frontEnd notice, pairRead.frontEnds[0]? = some frontEnd ∧
      notice ∈ frontEnd.noticesOf ⟨0⟩ ∧ notice.isTerminal = true ∧
      notice = .queryFailed pairFailure := by
  obtain ⟨asked, waits, read⟩ := evaluated_pairRead
  obtain ⟨before, here, same⟩ := List.map_eq_singleton_iff.mp asked
  obtain ⟨last, latest, told⟩ := List.map_eq_singleton_iff.mp read
  obtain ⟨_, held⟩ := Prod.mk.inj same
  obtain ⟨_, ends⟩ := Prod.mk.inj told
  have reached : (Hub.start Engine.fetchRun).Reaches pairFinished :=
    Reaches.start.play.play.play
  have onward : (pairFinished.play (.reply (.failed pairFailure))).Reaches pairRead :=
    Reaches.start.play.play
  have alone : pairRead.Alone 0 := by
    intro other _ _ _ found _
    have within := (List.getElem?_eq_some_iff.mp found).1
    rw [latest, List.length_singleton] at within
    exact Nat.lt_one_iff.mp within
  let reply : Reply := .failed pairFailure
  have outstanding : reply.ticket ∈ pairFinished.scheduler.table.outstandingOf ⟨0⟩ := by
    rw [waits]
    exact List.mem_singleton_self _
  obtain ⟨⟨cached, known⟩, unstored⟩ :=
    reached.kept.enrolled.consistent.awaited outstanding
  have fails : (pairFinished.scheduler.table.standingOf reply.ticket).verdict reply =
      .fails pairFailure := by
    rw [TicketTable.standingOf_pending known unstored]
    rfl
  have ended : true ∈ (last.noticesOf ⟨0⟩).map Notice.isTerminal := by simp [ends]
  obtain ⟨notice, member, terminal⟩ := List.mem_map.mp ended
  have latestHere : pairRead.frontEnds[0]? = some last := by rw [latest]; rfl
  have foundHere : pairFinished.frontEnds[0]? = some before := by rw [here]; rfl
  exact ⟨last, notice, latestHere, member, terminal,
    reached.notices_conclude.2 foundHere held outstanding fails onward alone latestHere
      notice member terminal⟩

end Samples

end Hub

end TicketFlow
