import TicketFlow.Proofs.Hub.Bookkeeping

namespace TicketFlow

/-! A move as one front end sees it.

A move is the turn of the front end itself, or it stands aside, or the backend
replies.  A front end whose consumer nobody else ever had keeps its seat while
it is running, and what it waits for is not lost while it runs the query.
-/

namespace Scheduler

variable {allowed : Scheduler → Act → Prop} {before after scheduler : Scheduler}
  {consumer : ConsumerId} {mailbox : MailboxId} {query : QueryId} {act : Act}

/-- The consumer goes on tracking the query, which goes on waiting and stays failed;
nothing is put into the mailbox. -/
structure Sustains (consumer : ConsumerId) (mailbox : MailboxId) (query : QueryId)
    (before after : Scheduler) : Prop where
  mailed :
    ∀ {event}, event ∈ (after.mailbox mailbox).events →
    event ∈ (before.mailbox mailbox).events
  tracked :
    query ∈ before.table.trackedBy consumer → query ∈ after.table.trackedBy consumer
  failed :
    query ∈ before.table.trackedBy consumer → query ∈ before.table.failed →
    query ∈ after.table.failed
  waits :
    query ∈ before.table.trackedBy consumer →
    ∀ {id}, id ∈ before.table.outstandingOf query → id ∈ after.table.outstandingOf query

theorem Sustains.refl : Sustains consumer mailbox query scheduler scheduler :=
  ⟨id, id, fun _ => id, fun _ => id⟩

theorem Sustains.trans {first second third : Scheduler}
    (left : Sustains consumer mailbox query first second)
    (right : Sustains consumer mailbox query second third) :
    Sustains consumer mailbox query first third where
  mailed given := left.mailed (right.mailed given)
  tracked given := right.tracked (left.tracked given)
  failed tracked given := right.failed (left.tracked tracked) (left.failed tracked given)
  waits tracked _ given := right.waits (left.tracked tracked) (left.waits tracked given)

theorem sustains_act (consistent : scheduler.table.Consistent)
    (kept : act ≠ .release consumer query) (stays : act ≠ .detach consumer) :
    Sustains consumer mailbox query scheduler (scheduler.act act) where
  mailed := mailed_of_act
  tracked tracked := trackedBy_act tracked kept stays
  failed tracked failed := failed_act consistent failed tracked kept stays
  waits tracked _ waits := outstandingOf_act consistent waits tracked kept stays

theorem Leads.sustains (leads : Leads allowed before after)
    (consistent : before.table.Consistent)
    (other : ∀ {scheduler act}, allowed scheduler act →
      act ≠ .release consumer query ∧ act ≠ .detach consumer) :
    Sustains consumer mailbox query before after := by
  let holds (later : Scheduler) : Prop :=
    later.table.Consistent ∧ Sustains consumer mailbox query before later
  have kept {scheduler : Scheduler} {act : Act} (given : holds scheduler)
      (permitted : allowed scheduler act) : holds (scheduler.act act) :=
    ⟨consistent_act given.1,
      given.2.trans (sustains_act given.1 (other permitted).1 (other permitted).2)⟩
  have begins : holds before := ⟨consistent, .refl⟩
  exact (leads.keeps kept begins).2

end Scheduler

namespace FrontEnd

variable {frontEnd became another : FrontEnd} {scheduler : Scheduler}
  {act : Scheduler.Act} {own : QueryId → Prop} {query : QueryId}

/-- Acts that have nothing to do with the front end or the queries that it runs. -/
def Aside (frontEnd : FrontEnd) (_ : Scheduler) (act : Scheduler.Act) : Prop :=
  (∀ query, ¬act.Concerns frontEnd.consumer frontEnd.mailbox query) ∧
    ∀ {consumer query apply}, act = .request consumer query apply →
      frontEnd.runs query = false

/-- What one front end does has nothing to do with another, of another consumer. -/
theorem Does.aside (does : another.Does became own scheduler act)
    (consumers : another.consumer ≠ frontEnd.consumer)
    (mailboxes : another.mailbox ≠ frontEnd.mailbox)
    (foreign : ∀ {id}, own id → frontEnd.runs id = false) :
    frontEnd.Aside scheduler act := by
  cases act with
  | attach consumer => exact does.elim
  | take mailbox => exact does.elim
  | detach consumer =>
      obtain ⟨rfl, _⟩ := does
      exact ⟨by simp [Scheduler.Act.Concerns, consumers], by rintro _ _ _ ⟨⟩⟩
  | abandon mailbox =>
      obtain ⟨rfl, _⟩ := does
      exact ⟨by simp [Scheduler.Act.Concerns, mailboxes], by rintro _ _ _ ⟨⟩⟩
  | release consumer query =>
      obtain ⟨rfl, _⟩ := does
      exact ⟨by simp [Scheduler.Act.Concerns, consumers], by rintro _ _ _ ⟨⟩⟩
  | request consumer query apply =>
      obtain ⟨_, owned, _⟩ := does
      refine ⟨by simp [Scheduler.Act.Concerns], ?_⟩
      rintro _ _ _ ⟨⟩
      exact foreign owned

/-- A front end that goes on running does not give up its seat. -/
theorem Does.seats (does : frontEnd.Does became own scheduler act)
    (running : became.isRunning = true)
    (seats : scheduler.Seats frontEnd.consumer frontEnd.mailbox) :
    (scheduler.act act).Seats frontEnd.consumer frontEnd.mailbox := by
  refine Scheduler.seats_act seats ?_ ?_ ?_ <;> rintro rfl
  · exact does
  · exact absurd (does.2.symm.trans running) (by simp)
  · exact absurd (does.2.symm.trans running) (by simp)

/-- A front end releases no query that it runs, and leaves only when it stops. -/
theorem Does.holds (does : frontEnd.Does became own scheduler act)
    (running : became.isRunning = true) (held : became.runs query = true) :
    act ≠ .release frontEnd.consumer query ∧ act ≠ .detach frontEnd.consumer := by
  constructor <;> rintro rfl
  · exact absurd (does.2.2.symm.trans held) (by simp)
  · exact absurd (does.2.symm.trans running) (by simp)

/-- As long as a front end goes on and runs a query, it does nothing that concerns its
seat, its mail or that query. -/
theorem Does.unconcerned (does : frontEnd.Does became own scheduler act)
    (running : became.isRunning = true) (held : became.runs query = true) :
    ¬act.Concerns frontEnd.consumer frontEnd.mailbox query := by
  rintro (rfl | rfl | rfl | rfl | rfl)
  · exact does
  · exact (does.holds running held).2 rfl
  · exact absurd (does.2.symm.trans running) (by simp)
  · exact does
  · exact (does.holds running held).1 rfl

end FrontEnd

namespace Hub

variable {hub after : Hub} {move : Move} {index : Nat}
  {frontEnd became : FrontEnd} {id : QueryId}

/-- The front end in one place is the only one that its consumer ever had. -/
def Alone (hub : Hub) (index : Nat) : Prop :=
  ∀ (other : Nat) (frontEnd another : FrontEnd), hub.frontEnds[index]? = some frontEnd →
    hub.frontEnds[other]? = some another →
    another.consumer = frontEnd.consumer → other = index

/-- A move, to the front end in one place. -/
inductive Turn (hub : Hub) (move : Move) (after : Hub) (index : Nat)
    (frontEnd : FrontEnd) : Prop where
  | aside {source : Scheduler} {ready : List Dispatch} {isHeard : Bool}
      (leads : Scheduler.Leads frontEnd.Aside hub.scheduler source)
      (scheduler : after.scheduler = { source with ready })
      (became : after.frontEnds[index]? = some { frontEnd with isHeard })
      (issues : hub.issued ⊆ after.issued)
      (heard : isHeard = frontEnd.isHeard ∨ move = .closeNotices index)
  | submitted {id : QueryId} {context : Context} (is : move = .submit index id context)
      (fresh : id ∉ hub.issued) (running : hub.running? index = some frontEnd)
      (scheduler : after.scheduler = (frontEnd.submit hub.depth hub.scheduler id context).2)
      (became : after.frontEnds[index]? =
      some (frontEnd.submit hub.depth hub.scheduler id context).1)
      (issues : after.issued = id :: hub.issued)
  | handled {event : QueryEvent} {source : Scheduler} (is : move = .advance index)
      (running : hub.running? index = some frontEnd)
      (taken : hub.scheduler.takeEvent? frontEnd.mailbox = some (event, source))
      (scheduler : after.scheduler = (frontEnd.handle hub.depth source event).2)
      (became : after.frontEnds[index]? = some (frontEnd.handle hub.depth source event).1)
      (issues : after.issued = hub.issued)
  | stopped
      (cause : move = .shutdown index ∨ hub.scheduler.isClosed frontEnd.mailbox = true)
      (running : hub.running? index = some frontEnd)
      (scheduler : after.scheduler = (frontEnd.stop hub.scheduler).2)
      (became : after.frontEnds[index]? = some (frontEnd.stop hub.scheduler).1)
      (issues : after.issued = hub.issued)
  | replied {reply : Reply} (is : move = .reply reply)
      (scheduler : after.scheduler = hub.scheduler.reply reply)
      (became : after.frontEnds[index]? = some frontEnd)
      (issues : after.issued = hub.issued)

/-- After a front end has acted, those in other places are as they were. -/
theorem frontEnds_acted {other : Nat} {acted another : FrontEnd}
    (here : hub.frontEnds[other]? = some another)
    (frontEnds : after.frontEnds = hub.frontEnds.set other acted) :
    after.frontEnds[other]? = some acted ∧
      ∀ {index : Nat}, other ≠ index → after.frontEnds[index]? = hub.frontEnds[index]? := by
  obtain ⟨within, _⟩ := List.getElem?_eq_some_iff.mp here
  rw [frontEnds]
  exact ⟨List.getElem?_set_self within, fun apart => List.getElem?_set_ne apart⟩

/-- Another front end acts for its own queries, on its own. -/
theorem Kept.stands_aside (kept : hub.Kept) {other : Nat} {issued : List QueryId}
    {another : FrontEnd} {own : QueryId → Prop} {acted : FrontEnd × Scheduler}
    {source : Scheduler} (found : hub.frontEnds[index]? = some frontEnd)
    (here : hub.frontEnds[other]? = some another) (apart : other ≠ index)
    (acts : another.Acted issued own source acted)
    (frontEnds : after.frontEnds = hub.frontEnds.set other acted.1)
    (alone : after.Alone index)
    (ours : ∀ {id}, own id → another.runs id = true ∨ id ∉ hub.issued) :
    Scheduler.Leads frontEnd.Aside source acted.2 ∧
      after.frontEnds[index]? = some frontEnd := by
  obtain ⟨became, others⟩ := frontEnds_acted here frontEnds
  have unchanged := (others apart).trans found
  have consumers : another.consumer ≠ frontEnd.consumer := fun same =>
    apart (alone _ _ _ unchanged became (acts.consumer.trans same))
  have mailboxes : another.mailbox ≠ frontEnd.mailbox :=
    fun same => apart (kept.apart here found same)
  have foreign {id : QueryId} (owns : own id) : frontEnd.runs id = false := by
    by_contra runs
    have held : frontEnd.runs id = true := by simpa using runs
    rcases ours owns with holds | new
    · exact apart (kept.sole here found holds held)
    · exact new ((kept.orderly found).enrolled held)
  refine ⟨Relation.ReflTransGen.mono ?_ _ _ acts.leads, unchanged⟩
  rintro earlier later ⟨act, does, same⟩
  exact ⟨act, does.aside consumers mailboxes foreign, same⟩

theorem Kept.turn (kept : hub.Kept) (move : Move) (alone : (hub.play move).Alone index)
    (found : hub.frontEnds[index]? = some frontEnd) :
    Turn hub move (hub.play move) index frontEnd := by
  cases hub.played move with
  | nothing scheduler frontEnds issues =>
      exact .aside .refl scheduler (frontEnds ▸ found) (issues ▸ List.Subset.refl _) (.inl rfl)
  | @spawned consumer scheduler frontEnds issues =>
      have within := (List.getElem?_eq_some_iff.mp found).1
      have unchanged : (hub.play move).frontEnds[index]? = some frontEnd := by
        rw [frontEnds, List.getElem?_append_left within, found]
      have differ : consumer ≠ frontEnd.consumer := fun same => by
        have new : (hub.play move).frontEnds[hub.frontEnds.length]? =
            some
              { consumer, mailbox := (hub.scheduler.attach consumer).1 } := by simp [frontEnds]
        exact absurd (alone _ _ _ unchanged new same) (Nat.ne_of_gt within)
      have attaches : frontEnd.Aside hub.scheduler (.attach consumer) :=
        ⟨by simp [Scheduler.Act.Concerns, differ], by rintro _ _ _ ⟨⟩⟩
      exact .aside (Scheduler.leads_act attaches) scheduler unchanged
        (issues ▸ List.Subset.refl _) (.inl rfl)
  | @submitted other another id context is fresh running scheduler frontEnds issues =>
      obtain ⟨here, goes⟩ := running?_eq_some running
      by_cases same : other = index
      · subst same
        obtain rfl := Option.some.inj (here.symm.trans found)
        exact .submitted is fresh running scheduler (frontEnds_acted here frontEnds).1 issues
      · obtain ⟨aside, unchanged⟩ :=
          kept.stands_aside found here same ((kept.orderly here).submit goes fresh context)
            frontEnds alone (Or.imp_right fun new => new ▸ fresh)
        exact .aside aside scheduler unchanged (issues ▸ List.subset_cons_self _ _) (.inl rfl)
  | @handled other another event source is running taken scheduler frontEnds issues =>
      obtain ⟨here, goes⟩ := running?_eq_some running
      by_cases same : other = index
      · subst same
        obtain rfl := Option.some.inj (here.symm.trans found)
        exact .handled is running taken scheduler (frontEnds_acted here frontEnds).1 issues
      · obtain ⟨aside, unchanged⟩ :=
          kept.stands_aside found here same
            ((kept.orderly here).handled event) frontEnds alone .inl
        obtain ⟨_, rfl⟩ := Scheduler.takeEvent?_eq_some taken
        have mailboxes : another.mailbox ≠ frontEnd.mailbox :=
          fun mailbox => same (kept.apart here found mailbox)
        have takes : frontEnd.Aside hub.scheduler (.take another.mailbox) :=
          ⟨by simp [Scheduler.Act.Concerns, mailboxes], by rintro _ _ _ ⟨⟩⟩
        exact .aside ((Scheduler.leads_act takes).trans aside) scheduler unchanged
          (issues ▸ List.Subset.refl _) (.inl rfl)
  | @stopped other another cause running scheduler frontEnds issues =>
      obtain ⟨here, goes⟩ := running?_eq_some running
      by_cases same : other = index
      · subst same
        obtain rfl := Option.some.inj (here.symm.trans found)
        exact .stopped cause running scheduler (frontEnds_acted here frontEnds).1 issues
      · obtain ⟨aside, unchanged⟩ :=
          kept.stands_aside found here same
            (kept.orderly here).stopped_acts frontEnds alone .inl
        exact .aside aside scheduler unchanged (issues ▸ List.Subset.refl _) (.inl rfl)
  | @unheard other is scheduler frontEnds issues =>
      have heard : ∃ isHeard,
          (hub.play move).frontEnds[index]? = some { frontEnd with isHeard } ∧
          (isHeard = frontEnd.isHeard ∨ move = .closeNotices index) := by
        rw [frontEnds, List.getElem?_modify, found]
        by_cases same : other = index
        · exact ⟨false, by simp [same], .inr (same ▸ is)⟩
        · exact ⟨frontEnd.isHeard, by simp [same], .inl rfl⟩
      obtain ⟨_, unchanged, heard⟩ := heard
      exact .aside .refl scheduler unchanged (issues ▸ List.Subset.refl _) heard
  | took _ scheduler frontEnds issues =>
      exact .aside .refl scheduler (frontEnds ▸ found) (issues ▸ List.Subset.refl _) (.inl rfl)
  | replied is scheduler frontEnds issues =>
      exact .replied is scheduler (frontEnds ▸ found) issues

/-- A front end stays where it is, with the consumer and the mailbox that it has. -/
theorem Kept.stays (kept : hub.Kept) (move : Move)
    (found : hub.frontEnds[index]? = some frontEnd) :
    ∃ became, (hub.play move).frontEnds[index]? = some became ∧
      became.consumer = frontEnd.consumer ∧
      became.mailbox = frontEnd.mailbox := by
  have acting {other : Nat} {issued : List QueryId} {another : FrontEnd}
      {own : QueryId → Prop} {acted : FrontEnd × Scheduler} {source : Scheduler}
      (here : hub.frontEnds[other]? = some another)
      (acts : another.Acted issued own source acted)
      (frontEnds : (hub.play move).frontEnds = hub.frontEnds.set other acted.1) :
      ∃ became, (hub.play move).frontEnds[index]? = some became ∧
        became.consumer = frontEnd.consumer ∧ became.mailbox = frontEnd.mailbox := by
    obtain ⟨became, others⟩ := frontEnds_acted here frontEnds
    by_cases same : other = index
    · subst same
      obtain rfl := Option.some.inj (here.symm.trans found)
      exact ⟨_, became, acts.consumer, acts.mailbox⟩
    · exact ⟨_, (others same).trans found, rfl, rfl⟩
  cases hub.played move with
  | nothing scheduler frontEnds issues => exact ⟨_, frontEnds ▸ found, rfl, rfl⟩
  | spawned scheduler frontEnds issues =>
      have within := (List.getElem?_eq_some_iff.mp found).1
      refine ⟨frontEnd, ?_, rfl, rfl⟩
      rw [frontEnds, List.getElem?_append_left within, found]
  | submitted _ fresh running scheduler frontEnds issues =>
      obtain ⟨here, goes⟩ := running?_eq_some running
      exact acting here ((kept.orderly here).submit goes fresh _) frontEnds
  | handled _ running taken scheduler frontEnds issues =>
      have here := (running?_eq_some running).1
      exact acting here ((kept.orderly here).handled _) frontEnds
  | stopped _ running scheduler frontEnds issues =>
      have here := (running?_eq_some running).1
      exact acting here (kept.orderly here).stopped_acts frontEnds
  | @unheard other _ scheduler frontEnds issues =>
      rw [frontEnds, List.getElem?_modify, found]
      by_cases same : other = index
      · exact ⟨{ frontEnd with isHeard := false }, by simp [same], rfl, rfl⟩
      · exact ⟨frontEnd, by simp [same], rfl, rfl⟩
  | took _ scheduler frontEnds issues => exact ⟨_, frontEnds ▸ found, rfl, rfl⟩
  | replied _ scheduler frontEnds issues => exact ⟨_, frontEnds ▸ found, rfl, rfl⟩

/-- A front end is where one was before the move, or it is new. -/
theorem appears (hub : Hub) (move : Move)
    (found : (hub.play move).frontEnds[index]? = some became) :
    (∃ frontEnd, hub.frontEnds[index]? = some frontEnd) ∨
      ∃ consumer, became = { consumer, mailbox := (hub.scheduler.attach consumer).1 } ∧
        (hub.play move).scheduler = (hub.scheduler.attach consumer).2 := by
  have acting {other : Nat} {acted : FrontEnd}
      (frontEnds : (hub.play move).frontEnds = hub.frontEnds.set other acted) :
      ∃ frontEnd, hub.frontEnds[index]? = some frontEnd := by
    have within := (List.getElem?_eq_some_iff.mp found).1
    rw [frontEnds, List.length_set] at within
    exact ⟨_, List.getElem?_eq_getElem within⟩
  cases hub.played move with
  | nothing scheduler frontEnds issues => exact .inl ⟨_, frontEnds ▸ found⟩
  | @spawned consumer scheduler frontEnds issues =>
      rw [frontEnds] at found
      rcases getElem?_append_cases found with ⟨_, same⟩ | before
      · exact .inr ⟨consumer, same, scheduler⟩
      · exact .inl ⟨_, before⟩
  | submitted _ fresh running scheduler frontEnds issues => exact .inl (acting frontEnds)
  | handled _ running taken scheduler frontEnds issues => exact .inl (acting frontEnds)
  | stopped _ running scheduler frontEnds issues => exact .inl (acting frontEnds)
  | unheard _ scheduler frontEnds issues =>
      rw [frontEnds, List.getElem?_modify] at found
      obtain ⟨before, here, _⟩ := Option.map_eq_some_iff.mp found
      exact .inl ⟨before, here⟩
  | took _ scheduler frontEnds issues => exact .inl ⟨_, frontEnds ▸ found⟩
  | replied _ scheduler frontEnds issues => exact .inl ⟨_, frontEnds ▸ found⟩

/-- Who is alone after a move was so before. -/
theorem Kept.alone_before (kept : hub.Kept) {move : Move}
    (alone : (hub.play move).Alone index) : hub.Alone index := by
  intro other frontEnd another found here same
  obtain ⟨became, stayed, consumer, _⟩ := kept.stays move found
  obtain ⟨_, stayedOther, consumerOther, _⟩ := kept.stays move here
  exact alone _ _ _ stayed stayedOther (consumerOther.trans (same.trans consumer.symm))

theorem Turn.issues_subset (turn : Turn hub move after index frontEnd) :
    hub.issued ⊆ after.issued := by
  cases turn with
  | aside leads scheduler same issues _ => exact issues
  | submitted _ fresh running scheduler same issues =>
      exact issues ▸ List.subset_cons_self _ _
  | handled _ running taken scheduler same issues => exact issues ▸ List.Subset.refl _
  | stopped _ running scheduler same issues => exact issues ▸ List.Subset.refl _
  | replied _ scheduler same issues => exact issues ▸ List.Subset.refl _

/-- Whoever keeps running keeps its seat. -/
theorem Turn.seats (turn : Turn hub move after index frontEnd) (kept : hub.Kept)
    (found : hub.frontEnds[index]? = some frontEnd)
    (stayed : after.frontEnds[index]? = some became) (running : became.isRunning = true)
    (seats : frontEnd.isRunning = true →
      hub.scheduler.Seats frontEnd.consumer frontEnd.mailbox) :
    after.scheduler.Seats became.consumer became.mailbox := by
  have owned {issued : List QueryId} {own : QueryId → Prop} {acted : FrontEnd × Scheduler}
      {source : Scheduler} (acts : frontEnd.Acted issued own source acted)
      (same : acted.1 = became)
      (seats : source.Seats frontEnd.consumer frontEnd.mailbox) :
        acted.2.Seats became.consumer became.mailbox := by
    subst same
    rw [acts.consumer, acts.mailbox]
    exact acts.leads.keeps (fun given does => does.seats running given) seats
  have orderly := kept.orderly found
  cases turn with
  | @aside source ready isHeard leads scheduler same issues _ =>
      obtain rfl := Option.some.inj (same.symm.trans stayed)
      have kept : source.Seats frontEnd.consumer frontEnd.mailbox :=
        (leads.spares kept.enrolled.consistent
          (seats running) fun {_ _} aside => aside.1 ⟨0⟩).seats
      rw [scheduler]
      exact ⟨kept.address, kept.held⟩
  | submitted _ fresh found scheduler same issues =>
      have goes := (running?_eq_some found).2
      rw [scheduler]
      exact owned (orderly.submit goes fresh _)
        (Option.some.inj (same.symm.trans stayed)) (seats goes)
  | @handled event source _ found taken scheduler same issues =>
      have goes := (running?_eq_some found).2
      rw [scheduler]
      refine owned (orderly.handled event) (Option.some.inj (same.symm.trans stayed)) ?_
      obtain ⟨_, rfl⟩ := Scheduler.takeEvent?_eq_some taken
      exact Scheduler.seats_act (seats goes) (by simp) (by simp) (by simp)
  | stopped _ _ scheduler same issues =>
      obtain rfl := Option.some.inj (same.symm.trans stayed)
      simp [FrontEnd.stop] at running
  | @replied reply _ scheduler same issues =>
      obtain rfl := Option.some.inj (same.symm.trans stayed)
      rw [scheduler]
      exact (@Scheduler.spares_reply _ _ _ ⟨0⟩
        (seats running) kept.enrolled.consistent reply).seats

/-- A move consists of acts of consumers, or it is one of the backend. -/
theorem Kept.leads_play (kept : hub.Kept) (move : Move) :
    Scheduler.Leads (fun _ _ => True) hub.scheduler (hub.play move).scheduler ∨
      (move = .take ∧ (hub.play move).scheduler =
        { hub.scheduler with ready := hub.scheduler.ready.tail }) ∨ ∃ reply,
        move = .reply reply ∧ (hub.play move).scheduler = hub.scheduler.reply reply := by
  have acting {issued : List QueryId} {another : FrontEnd}
      {own : QueryId → Prop} {acted : FrontEnd × Scheduler}
      {source : Scheduler} (acts : another.Acted issued own source acted) :
      Scheduler.Leads (fun _ _ => True) source acted.2 := by
    refine Relation.ReflTransGen.mono ?_ _ _ acts.leads
    rintro earlier later ⟨act, _, same⟩
    exact ⟨act, trivial, same⟩
  cases hub.played move with
  | nothing scheduler _ _ => exact .inl (scheduler ▸ .refl)
  | @spawned consumer scheduler _ _ =>
      rw [scheduler]
      exact .inl (@Scheduler.leads_act _ _ (.attach consumer) trivial)
  | submitted _ fresh running scheduler _ _ =>
      obtain ⟨here, goes⟩ := running?_eq_some running
      exact .inl (scheduler ▸ acting ((kept.orderly here).submit goes fresh _))
  | @handled _ another event _ _ running taken scheduler _ _ =>
      have here := (running?_eq_some running).1
      obtain ⟨_, rfl⟩ := Scheduler.takeEvent?_eq_some taken
      have takes : Scheduler.Leads (fun _ _ => True) hub.scheduler
          (hub.scheduler.act (.take another.mailbox)) :=
        Scheduler.leads_act trivial
      exact .inl (scheduler ▸ takes.trans (acting ((kept.orderly here).handled event)))
  | stopped _ running scheduler _ _ =>
      have here := (running?_eq_some running).1
      exact .inl (scheduler ▸ acting (kept.orderly here).stopped_acts)
  | unheard _ scheduler _ _ => exact .inl (scheduler ▸ .refl)
  | took is scheduler _ _ => exact .inr (.inl ⟨is, scheduler⟩)
  | replied is scheduler _ _ => exact .inr (.inr ⟨_, is, scheduler⟩)

/-- What a query waits for is not lost while its front end runs it,
unless the backend replies. -/
theorem Turn.sustains (turn : Turn hub move after index frontEnd)
    (kept : hub.Kept) (found : hub.frontEnds[index]? = some frontEnd)
    (stayed : after.frontEnds[index]? = some became)
    (orderly : became.Orderly after.issued) (held : became.runs id = true) :
    (frontEnd.runs id = true ∨ id ∉ hub.issued) ∧
      (Scheduler.Sustains frontEnd.consumer frontEnd.mailbox id hub.scheduler after.scheduler ∨
        became = frontEnd ∧ ∃ reply, after.scheduler = hub.scheduler.reply reply) := by
  have consistent := kept.enrolled.consistent
  have owned {issued : List QueryId} {own : QueryId → Prop} {acted : FrontEnd × Scheduler}
      {source : Scheduler} (acts : frontEnd.Acted issued own source acted)
      (same : acted.1 = became) (consistent : source.table.Consistent)
      (ours : own id → frontEnd.runs id = true ∨ id ∉ hub.issued) :
      (frontEnd.runs id = true ∨ id ∉ hub.issued) ∧
        Scheduler.Sustains frontEnd.consumer frontEnd.mailbox id source acted.2 := by
    subst same
    exact ⟨ours (acts.runs held),
      acts.leads.sustains consistent
        fun {_ _} does => does.holds (orderly.isRunning held) held⟩
  have here := kept.orderly found
  cases turn with
  | @aside source ready isHeard leads scheduler same issues _ =>
      obtain rfl := Option.some.inj (same.symm.trans stayed)
      have sustained : Scheduler.Sustains frontEnd.consumer frontEnd.mailbox id
          hub.scheduler source := by
        refine leads.sustains consistent fun {_ act} aside => ?_
        have unconcerned := aside.1 id
        simp only [Scheduler.Act.Concerns, not_or] at unconcerned
        exact ⟨unconcerned.2.2.2.2, unconcerned.2.1⟩
      rw [scheduler]
      exact ⟨.inl held, .inl { sustained with }⟩
  | submitted _ fresh running scheduler same issues =>
      rw [scheduler]
      obtain ⟨ours, sustained⟩ :=
        owned (here.submit (running?_eq_some running).2 fresh _)
          (Option.some.inj (same.symm.trans stayed)) consistent
          (Or.imp_right fun new => new ▸ fresh)
      exact ⟨ours, .inl sustained⟩
  | @handled event source _ running taken scheduler same issues =>
      obtain ⟨_, rfl⟩ := Scheduler.takeEvent?_eq_some taken
      rw [scheduler]
      obtain ⟨ours, sustained⟩ :=
        owned (here.handled event) (Option.some.inj (same.symm.trans stayed))
          (Scheduler.consistent_act consistent) .inl
      exact ⟨ours,
        .inl ((Scheduler.sustains_act consistent (by simp) (by simp)).trans sustained)⟩
  | stopped _ running scheduler same issues =>
      obtain rfl := Option.some.inj (same.symm.trans stayed)
      simp [FrontEnd.stop, FrontEnd.runs, OrderedMap.contains] at held
  | @replied reply _ scheduler same issues =>
      obtain rfl := Option.some.inj (same.symm.trans stayed)
      exact ⟨.inl held, .inr ⟨rfl, reply, scheduler⟩⟩

/-- A query that is marked failed or waits is tracked by the consumer of the
front end that runs it. -/
theorem Kept.tracks (kept : hub.Kept) (found : hub.frontEnds[index]? = some frontEnd)
    (held : frontEnd.runs id = true) (tracked : hub.scheduler.table.isTracked id = true) :
    id ∈ hub.scheduler.table.trackedBy frontEnd.consumer := by
  obtain ⟨consumer, tracks⟩ :=
    (TicketTable.isTracked_iff kept.enrolled.consistent.distinct).mp tracked
  rwa [kept.owned found held tracks] at tracks

end Hub

end TicketFlow
