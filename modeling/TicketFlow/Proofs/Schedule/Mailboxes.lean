import TicketFlow.Proofs.Schedule.Acts

namespace TicketFlow.Scheduler

/-! Events arrive.

Whoever tracks a query is attached, and no two consumers share a mailbox.  So
the deliveries of a reply, which are computed before the first of them is made,
can be told apart by their addressees: a consumer that holds its mailbox gets
its own events, all of them and in their order, and loses nothing when another
one turns out to be gone and is detached halfway through.
-/

/-- Everything that can happen to a scheduler: the acts of consumers and of
their receivers, the replies of the backend, and the backend taking up what
is ready or going away. -/
inductive Operation where
  | act (act : Act)
  | reply (reply : Reply)
  | takeReady
  | stopBackend

def perform (scheduler : Scheduler) : Operation → Scheduler
  | .act act => scheduler.act act
  | .reply reply => scheduler.reply reply
  | .takeReady => scheduler.takeReady.2
  | .stopBackend => scheduler.stopBackend

/-- What a scheduler has become after operations, the latest of which comes first. -/
def replay (run : RunId) : List Operation → Scheduler
  | [] => start run
  | operation :: earlier => (replay run earlier).perform operation

/-- What a batch of deliveries has for one consumer, in the order of the batch. -/
def eventsFor (consumer : ConsumerId) (deliveries : Deliveries) : List QueryEvent :=
  deliveries.filterMap
    fun delivery => if delivery.1 = consumer then some delivery.2 else none

variable {scheduler before after middle : Scheduler} {consumer other : ConsumerId}
  {query : QueryId} {mailbox : MailboxId} {event : QueryEvent} {deliveries : Deliveries}

@[simp] theorem eventsFor_cons_self :
    eventsFor consumer ((consumer, event) :: deliveries) =
      event :: eventsFor consumer deliveries := by
  simp [eventsFor]

theorem eventsFor_cons_of_ne (apart : other ≠ consumer) :
    eventsFor consumer ((other, event) :: deliveries) = eventsFor consumer deliveries := by
  simp [eventsFor, apart]

theorem mem_eventsFor :
    event ∈ eventsFor consumer deliveries ↔ (consumer, event) ∈ deliveries := by
  simp only [eventsFor, List.mem_filterMap, Option.ite_none_right_eq_some,
    Option.some.injEq]
  constructor
  · rintro ⟨⟨_, _⟩, member, rfl, rfl⟩
    exact member
  · intro member
    exact ⟨_, member, rfl, rfl⟩

section Wiring

/-- The mailboxes fit the table: whoever tracks a query has one, and
nobody has that of another. -/
structure Wired (scheduler : Scheduler) : Prop where
  consistent : scheduler.table.Consistent
  attached :
    ∀ {consumer query}, query ∈ scheduler.table.trackedBy consumer →
    scheduler.isAttached consumer = true
  apart :
    ∀ {one two id}, scheduler.addresses.get? one = some id →
    scheduler.addresses.get? two = some id → one = two
  within :
    ∀ {consumer id}, scheduler.addresses.get? consumer = some id →
    id.index < scheduler.mailboxes.length

theorem wired_start (run : RunId) : (start run).Wired where
  consistent := TicketTable.consistent_empty run
  attached tracked := by simp [start, TicketTable.trackedBy] at tracked
  apart one := by simp [start] at one
  within addressed := by simp [start] at addressed

/-- Whatever leaves the addresses alone has to see to it that it is the attached
consumers that track queries. -/
theorem Wired.of_addresses (wired : before.Wired) (consistent : after.table.Consistent)
    (addresses : after.addresses = before.addresses)
    (mailboxes : before.mailboxes.length ≤ after.mailboxes.length)
    (tracked : ∀ {consumer query}, query ∈ after.table.trackedBy consumer →
      query ∈ before.table.trackedBy consumer ∨ before.isAttached consumer = true) :
        after.Wired where
  consistent := consistent
  attached {consumer query} given := by
    rw [isAttached, addresses, ← isAttached]
    exact (tracked given).elim wired.attached id
  apart one two := by
    rw [addresses] at one two
    exact wired.apart one two
  within addressed := by
    rw [addresses] at addressed
    exact Nat.lt_of_lt_of_le (wired.within addressed) mailboxes

theorem Wired.attach (wired : scheduler.Wired) (consumer : ConsumerId) :
    (scheduler.attach consumer).2.Wired where
  consistent := wired.consistent
  attached {someone query} tracked := by
    obtain ⟨id, addressed⟩ := OrderedMap.contains_eq_true_iff.mp (wired.attached tracked)
    simp only [isAttached, Scheduler.attach, OrderedMap.contains_eq_true_iff,
      OrderedMap.get?_insert, addressed]
    split <;> exact ⟨_, rfl⟩
  apart {one two id} left right := by
    simp only [Scheduler.attach, OrderedMap.get?_insert] at left right
    split at left <;> split at right
    next same_left same_right => exact same_left.symm.trans same_right
    next =>
      obtain rfl := Option.some.inj left
      exact absurd (wired.within right) (Nat.lt_irrefl _)
    next =>
      obtain rfl := Option.some.inj right
      exact absurd (wired.within left) (Nat.lt_irrefl _)
    next => exact wired.apart left right
  within {someone id} addressed := by
    simp only [Scheduler.attach, OrderedMap.get?_insert, List.length_append,
      List.length_singleton] at addressed ⊢
    split at addressed
    · obtain rfl := Option.some.inj addressed
      exact Nat.lt_succ_self _
    · exact Nat.lt_succ_of_lt (wired.within addressed)

theorem Wired.detach (wired : scheduler.Wired) (consumer : ConsumerId) :
    (scheduler.detach consumer).Wired where
  consistent := wired.consistent.detach consumer
  attached {someone query} tracked := by
    have kept : query ∈ (scheduler.table.perform (.detach consumer)).2.trackedBy someone :=
      tracked
    obtain ⟨_, impossible⟩ | ⟨before, _, stays⟩ :=
      TicketTable.mem_trackedBy_perform.mp kept
    · simp at impossible
    · have apart : consumer ≠ someone := fun same => stays (same ▸ rfl)
      obtain ⟨id, addressed⟩ := OrderedMap.contains_eq_true_iff.mp (wired.attached before)
      exact OrderedMap.contains_eq_true_iff.mpr
        ⟨id, (OrderedMap.get?_erase_of_ne apart).trans addressed⟩
  apart {one two id} left right := by
    simp only [Scheduler.detach, OrderedMap.get?_erase,
      Option.ite_none_left_eq_some] at left right
    exact wired.apart left.2 right.2
  within {someone id} addressed := by
    simp only [Scheduler.detach, OrderedMap.get?_erase,
      Option.ite_none_left_eq_some] at addressed
    exact wired.within addressed.2

/-- A consumer without a mailbox is refused. -/
theorem isAttached_of_request {apply : Apply} {placeholder : Placeholder}
    (requested : scheduler.request consumer query apply = .ok (placeholder, after)) :
    scheduler.isAttached consumer = true := by
  unfold request at requested
  split at requested
  · simp at requested
  · split at requested
    · assumption
    · simp at requested

theorem Wired.act (wired : scheduler.Wired) (act : Act) : (scheduler.act act).Wired := by
  have consistent : (scheduler.act act).table.Consistent :=
    consistent_act wired.consistent
  have mailboxes := scheduler.length_mailboxes_act act
  cases act with
  | attach consumer => exact wired.attach consumer
  | detach consumer => exact wired.detach consumer
  | abandon mailbox => exact wired.of_addresses consistent rfl mailboxes .inl
  | take mailbox =>
      refine wired.of_addresses consistent ?_ mailboxes fun tracked => .inl ?_
      · cases events : (scheduler.mailbox mailbox).events <;> simp [Scheduler.act,
          takeEvent?, events, updateMailbox]
      · exact (trackedBy_of_act tracked).resolve_right (by simp)
  | release consumer query =>
      exact wired.of_addresses consistent rfl mailboxes fun tracked =>
        .inl ((trackedBy_of_act tracked).resolve_right (by simp))
  | request consumer query apply =>
      cases requested : scheduler.request consumer query apply with
      | error fault =>
          have same : scheduler.act (.request consumer query apply) = scheduler := by
            simp [Scheduler.act, requested]
          rwa [same]
      | ok granted =>
          obtain ⟨placeholder, after⟩ := granted
          have same : scheduler.act (.request consumer query apply) = after := by
            simp [Scheduler.act, requested]
          obtain ⟨ticket, asked⟩ := asked_of_request requested
          refine wired.of_addresses consistent
            (same ▸ asked.addresses) mailboxes fun {someone other} tracked => ?_
          rcases trackedBy_of_act tracked with before | ⟨_, asking⟩
          · exact .inl before
          · obtain ⟨rfl, _, _⟩ := Act.request.inj asking
            exact .inr (isAttached_of_request requested)

theorem Wired.mailed (wired : scheduler.Wired) (id : MailboxId) (f : Mailbox → Mailbox) :
    (scheduler.updateMailbox id f).Wired :=
  wired.of_addresses wired.consistent rfl (by simp [updateMailbox]) .inl

theorem Wired.deliver (wired : scheduler.Wired) (delivery : ConsumerId × QueryEvent) :
    (scheduler.deliver delivery).Wired := by
  unfold Scheduler.deliver
  split
  · exact wired
  · split
    · exact wired.mailed _ _
    · exact wired.detach _

/-- The table enters a reply without looking at the mailboxes. -/
theorem Wired.accept (wired : scheduler.Wired) (reply : Reply) :
    (scheduler.accept reply).2.Wired :=
  wired.of_addresses (wired.consistent.perform (.reply reply)) rfl (Nat.le_refl _)
      fun {consumer query} tracked => by
    have kept : query ∈ (scheduler.table.reply reply).2.trackedBy consumer := tracked
    rw [TicketTable.trackedBy_congr TicketTable.tracking_reply] at kept
    exact .inl kept

theorem Wired.perform (wired : scheduler.Wired) (operation : Operation) :
    (scheduler.perform operation).Wired := by
  cases operation with
  | act act => exact wired.act act
  | reply reply =>
      exact foldl_deliver (fun wired => wired.mailed _ _)
        (fun wired _ _ => wired.detach _) (wired.accept reply)
  | takeReady => exact wired.of_addresses wired.consistent rfl (Nat.le_refl _) .inl
  | stopBackend => exact wired.of_addresses wired.consistent rfl (Nat.le_refl _) .inl

theorem wired_replay (run : RunId) (history : List Operation) :
    (replay run history).Wired := by
  induction history with
  | nil => exact wired_start run
  | cons operation earlier ih => exact ih.perform operation

end Wiring

section Delivery

/-- Nothing that belongs to the consumer has changed. -/
structure SameFor (consumer : ConsumerId) (before after : Scheduler) : Prop where
  address : after.addresses.get? consumer = before.addresses.get? consumer
  mail :
    ∀ {id}, before.addresses.get? consumer = some id → after.mailbox id = before.mailbox id
  tracking : after.table.trackedBy consumer = before.table.trackedBy consumer

theorem SameFor.refl (consumer : ConsumerId) (scheduler : Scheduler) :
    SameFor consumer scheduler scheduler :=
  ⟨rfl, fun _ => rfl, rfl⟩

theorem SameFor.trans (first : SameFor consumer before middle)
    (second : SameFor consumer middle after) : SameFor consumer before after where
  address := second.address.trans first.address
  mail addressed := (second.mail (first.address.trans addressed)).trans (first.mail addressed)
  tracking := second.tracking.trans first.tracking

theorem SameFor.seats (same : SameFor consumer before after)
    (seats : before.Seats consumer mailbox) : after.Seats consumer mailbox :=
  ⟨same.address.trans seats.address, by rw [same.mail seats.address]; exact seats.held⟩

theorem trackedBy_detach (table : TicketTable) (consumer someone : ConsumerId) :
    (table.detach consumer).trackedBy someone = if consumer = someone then
      [] else table.trackedBy someone := by
  have tracking : (table.detach consumer).tracking = table.tracking.erase consumer :=
    TicketTable.foldl_dropUntracked_frame.2.2
  rw [TicketTable.trackedBy, tracking, OrderedMap.get?_erase]
  split <;> rfl

theorem sameFor_detach (apart : other ≠ consumer) :
    SameFor consumer scheduler (scheduler.detach other) where
  address := OrderedMap.get?_erase_of_ne apart
  mail _ := rfl
  tracking := (trackedBy_detach scheduler.table other consumer).trans (if_neg apart)

theorem deliver_unaddressed (absent : scheduler.addresses.get? consumer = none) :
    scheduler.deliver (consumer, event) = scheduler := by
  simp [deliver, absent]

theorem deliver_seated (seats : scheduler.Seats consumer mailbox) :
    scheduler.deliver (consumer, event) = scheduler.updateMailbox mailbox
      fun mailbox => { mailbox with events := mailbox.events ++ [event] } := by
  simp [deliver, seats.address, seats.held]

theorem deliver_gone (addressed : scheduler.addresses.get? consumer = some mailbox)
    (unheld : (scheduler.mailbox mailbox).isHeld = false) :
    scheduler.deliver (consumer, event) = scheduler.detach consumer := by
  simp [deliver, addressed, unheld]

/-- A delivery changes nothing for anybody but its addressee, even where it ends
in detaching that one. -/
theorem Wired.sameFor_deliver (wired : scheduler.Wired) (apart : other ≠ consumer) :
    SameFor consumer scheduler (scheduler.deliver (other, event)) := by
  unfold Scheduler.deliver
  split
  · exact .refl consumer scheduler
  next id addressed =>
    split
    · refine ⟨rfl, fun {own} owned => ?_, rfl⟩
      rw [mailbox_update, if_neg]
      rintro ⟨rfl, _⟩
      exact apart (wired.apart addressed owned)
    · exact sameFor_detach apart

/-- Who has no events in a batch, or no mailbox, does not notice it. -/
theorem Wired.sameFor_foldl_deliver (wired : scheduler.Wired)
    (unaware : eventsFor consumer deliveries = [] ∨ scheduler.addresses.get? consumer = none) :
    SameFor consumer scheduler (deliveries.foldl Scheduler.deliver scheduler) := by
  induction deliveries generalizing scheduler with
  | nil => exact .refl consumer scheduler
  | cons delivery rest ih =>
      obtain ⟨addressee, event⟩ := delivery
      by_cases own : addressee = consumer
      · subst own
        have absent := unaware.resolve_left (by simp)
        rw [List.foldl_cons, deliver_unaddressed absent]
        exact ih wired (.inr absent)
      · have same : SameFor consumer scheduler (scheduler.deliver (addressee, event)) :=
          wired.sameFor_deliver own
        rw [eventsFor_cons_of_ne own] at unaware
        exact same.trans (ih (wired.deliver _) (unaware.imp_right same.address.trans))

/-- A consumer that holds its mailbox gets its events, keeps its seat and goes on
tracking what it tracked. -/
theorem Wired.foldl_deliver_seated (wired : scheduler.Wired)
    (seats : scheduler.Seats consumer mailbox) :
    let after :=
  deliveries.foldl Scheduler.deliver scheduler
    after.Seats consumer mailbox ∧
      (after.mailbox mailbox).events =
        (scheduler.mailbox mailbox).events ++ eventsFor consumer deliveries ∧
      after.table.trackedBy consumer = scheduler.table.trackedBy consumer := by
  induction deliveries generalizing scheduler with
  | nil => exact ⟨seats, (List.append_nil _).symm, rfl⟩
  | cons delivery rest ih =>
      obtain ⟨addressee, event⟩ := delivery
      by_cases own : addressee = consumer
      · subst own
        have pushed : (scheduler.deliver (addressee, event)).mailbox mailbox =
            { scheduler.mailbox mailbox with
              events := (scheduler.mailbox mailbox).events ++ [event] } := by
          rw [deliver_seated seats, mailbox_update,
            if_pos ⟨rfl, index_lt_of_held seats.held⟩]
        have still : (scheduler.deliver (addressee, event)).Seats addressee mailbox := by
          refine ⟨?_, by rw [pushed]; exact seats.held⟩
          rw [deliver_seated seats]
          exact seats.address
        have tracking : (scheduler.deliver (addressee, event)).table = scheduler.table := by
          rw [deliver_seated seats]; rfl
        obtain ⟨seated, events, tracked⟩ := ih (wired.deliver _) still
        refine ⟨seated, ?_, tracked.trans (by rw [tracking])⟩
        rw [List.foldl_cons, events, pushed, eventsFor_cons_self, List.append_assoc,
          List.singleton_append]
      · have same : SameFor consumer scheduler (scheduler.deliver (addressee, event)) :=
          wired.sameFor_deliver own
        obtain ⟨seated, events, tracked⟩ := ih (wired.deliver _) (same.seats seats)
        refine ⟨seated, ?_, tracked.trans same.tracking⟩
        rw [List.foldl_cons, events, same.mail seats.address, eventsFor_cons_of_ne own]

/-- A consumer that has events but no longer holds its mailbox is detached
by the first of them. -/
theorem Wired.foldl_deliver_gone (wired : scheduler.Wired)
    (addressed : scheduler.addresses.get? consumer = some mailbox)
    (unheld : (scheduler.mailbox mailbox).isHeld = false)
    (told : eventsFor consumer deliveries ≠ []) :
    let after :=
  deliveries.foldl Scheduler.deliver scheduler
    after.addresses.get? consumer = none ∧ after.table.trackedBy consumer = [] := by
  induction deliveries generalizing scheduler with
  | nil => exact absurd rfl told
  | cons delivery rest ih =>
      obtain ⟨addressee, event⟩ := delivery
      by_cases own : addressee = consumer
      · subst own
        have left : (scheduler.detach addressee).addresses.get? addressee = none :=
          OrderedMap.get?_erase_self
        have same : SameFor addressee (scheduler.detach addressee)
            (rest.foldl Scheduler.deliver (scheduler.detach addressee)) :=
          (wired.detach addressee).sameFor_foldl_deliver (.inr left)
        rw [List.foldl_cons, deliver_gone addressed unheld]
        refine ⟨same.address.trans left, same.tracking.trans ?_⟩
        exact (trackedBy_detach scheduler.table addressee addressee).trans (if_pos rfl)
      · have same : SameFor consumer scheduler (scheduler.deliver (addressee, event)) :=
          wired.sameFor_deliver own
        rw [eventsFor_cons_of_ne own] at told
        exact ih (wired.deliver _) (same.address.trans addressed)
          (by rw [same.mail addressed]; exact unheld) told

end Delivery

section Arrival

/-- What becomes of the events that a reply has for one consumer. -/
structure Arrives (consumer : ConsumerId) (told : List QueryEvent)
    (before after : Scheduler) : Prop where
  attached : told ≠ [] → before.isAttached consumer = true
  /-- Whoever holds its mailbox finds them in it, after the earlier ones. -/
  received : ∀ {id}, before.Seats consumer id → after.Seats consumer id ∧
    (after.mailbox id).events = (before.mailbox id).events ++ told ∧
    after.table.trackedBy consumer = before.table.trackedBy consumer
  /-- Whoever does not is found out by the first of them. -/
  detached :
    ∀ {id}, before.addresses.get? consumer = some id → (before.mailbox id).isHeld = false →
    told ≠ [] → after.isAttached consumer = false ∧ after.table.trackedBy consumer = []
  unconcerned : told = [] → SameFor consumer before after

theorem Wired.arrives (wired : scheduler.Wired) (reply : Reply) (consumer : ConsumerId) :
    Arrives consumer (eventsFor consumer (scheduler.table.reply reply).1) scheduler
      (scheduler.reply reply) := by
  have accepted : (scheduler.accept reply).2.Wired := wired.accept reply
  have tracking : (scheduler.accept reply).2.table.trackedBy consumer =
      scheduler.table.trackedBy consumer :=
    TicketTable.trackedBy_congr TicketTable.tracking_reply
  refine ⟨fun told => ?_, fun {id} seats => ?_, fun {id} addressed unheld told => ?_,
    fun untold => ?_⟩
  · obtain ⟨event, member⟩ := List.exists_mem_of_ne_nil _ told
    exact wired.attached (wired.consistent.concerned_of_mem_reply (mem_eventsFor.mp member)).2
  · obtain ⟨seated, events, tracked⟩ :=
      accepted.foldl_deliver_seated ⟨seats.address, seats.held⟩
    exact ⟨seated, events, tracked.trans tracking⟩
  · obtain ⟨absent, tracked⟩ := accepted.foldl_deliver_gone addressed unheld told
    exact ⟨by rw [isAttached, OrderedMap.contains]; exact congrArg Option.isSome absent,
      tracked⟩
  · have same := accepted.sameFor_foldl_deliver (.inl untold)
    exact ⟨same.address, same.mail, same.tracking.trans tracking⟩

/-- However a scheduler came about, whoever tracks a query is attached, and the events of
the next reply arrive. -/
theorem events_arrive (run : RunId) (history : List Operation) :
    let scheduler := replay run history
    (∀ {consumer query}, query ∈ scheduler.table.trackedBy consumer →
        scheduler.isAttached consumer = true) ∧ ∀ reply consumer,
        Arrives consumer (eventsFor consumer (scheduler.table.reply reply).1) scheduler
          (scheduler.reply reply) :=
  ⟨(wired_replay run history).attached, (wired_replay run history).arrives⟩

end Arrival

section Samples

/-- Two consumers ask for the same page; the receiver of the second one is dropped. -/
def halfDeserted : List Operation :=
  let fetch : Apply :=
    { task := [.lambda (.foreign Engine.fetchTask)]
      bindings := [("url", [.str "a"])]
      channel := 1 }
  [.act (.abandon ⟨1⟩), .act (.request ⟨2⟩ ⟨2⟩ fetch), .act (.request ⟨1⟩ ⟨1⟩ fetch),
    .act (.attach ⟨2⟩), .act (.attach ⟨1⟩)]

/-- The failure of the page is told to the first consumer, and detaches the second. -/
theorem events_arrive_halfDeserted :
    let before := replay Engine.fetchRun halfDeserted
    let after := before.reply Engine.fetchFailed
    (after.mailbox ⟨0⟩).events = eventsFor ⟨1⟩ (before.table.reply Engine.fetchFailed).1 ∧
      (eventsFor ⟨1⟩ (before.table.reply Engine.fetchFailed).1).length = 1 ∧
      after.isAttached ⟨2⟩ = false ∧ after.table.trackedBy ⟨2⟩ = [] := by
  have evaluated : (replay Engine.fetchRun halfDeserted).addresses.get? ⟨1⟩ = some ⟨0⟩ ∧
      ((replay Engine.fetchRun halfDeserted).mailbox ⟨0⟩).isHeld = true ∧
      ((replay Engine.fetchRun halfDeserted).mailbox ⟨0⟩).events.length = 0 ∧
      (replay Engine.fetchRun halfDeserted).addresses.get? ⟨2⟩ = some ⟨1⟩ ∧
      ((replay Engine.fetchRun halfDeserted).mailbox ⟨1⟩).isHeld = false ∧
      (eventsFor ⟨1⟩
        ((replay Engine.fetchRun halfDeserted).table.reply Engine.fetchFailed).1).length = 1 ∧
      (eventsFor ⟨2⟩ ((replay Engine.fetchRun halfDeserted).table.reply
        Engine.fetchFailed).1).length = 1 := by
    decide +kernel
  obtain ⟨address, held, empty, addressToo, unheld, one, two⟩ := evaluated
  have arrives := (events_arrive Engine.fetchRun halfDeserted).2 Engine.fetchFailed
  obtain ⟨_, events, _⟩ := (arrives ⟨1⟩).received ⟨address, held⟩
  have left :=
    (arrives ⟨2⟩).detached addressToo unheld
      (List.ne_nil_of_length_pos (by rw [two]; exact Nat.one_pos))
  rw [List.eq_nil_of_length_eq_zero empty, List.nil_append] at events
  exact ⟨events, one, left⟩

end Samples

end TicketFlow.Scheduler
