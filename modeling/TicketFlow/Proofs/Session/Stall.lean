import TicketFlow.Proofs.Arena.Holding
import TicketFlow.Proofs.Session.Attendance
import TicketFlow.Proofs.Session.Independence

namespace TicketFlow

/-! When a query that waits for nothing is left pending.

A pass resolves every placeholder it can see, so a placeholder that is left
waits for its ticket, and the ticket for its outputs.  The exception is a curry
of several tasks, which no pass looks into again: a placeholder in there is
never resolved, although it counts as unresolved.  (Besides, the run may have
stored fewer outputs at the address of the ticket than its invocation has: that
takes another invocation of the same digest.)
-/

/-- A context without placeholders. -/
structure Context.Fresh (context : Context) : Prop where
  arena : context.arena.Binds Term.IsSettled
  targets : ∀ term ∈ context.current, term.IsSettled

/-- The outputs that are stored for the ticket end before the channel of the placeholder. -/
def TicketTable.Lacks (table : TicketTable) (placeholder : Placeholder) : Prop :=
  ∃ outputs, table.results.get? placeholder.ticket = some outputs ∧
    outputs.length < placeholder.channel

/-- A pass meets a placeholder whose ticket is finished without the output. -/
def Context.Lacking (table : TicketTable) (context : Context) : Prop :=
  ∃ term ∈ context.current, ∃ placeholder,
    context.arena.Exposes placeholder term ∧ table.Lacks placeholder

/-- No further pass resolves some placeholder: it stands in a curry of several tasks, or
its ticket is finished without the output. -/
inductive Context.Stalled (table : TicketTable) (context : Context) : Prop where
  | hidden {term : Term} {placeholder : Placeholder} (inside : term ∈ context.current)
      (hides : context.arena.Hides placeholder term)
  | lacking (lacking : context.Lacking table)

section Fresh

variable {context : Context} {known : Placeholder → Prop}

theorem Term.Occurs.not_isSettled {term : Term} {placeholder : Placeholder}
    (occurs : term.Occurs placeholder) : ¬term.IsSettled := by
  unfold Term.Occurs at occurs
  unfold Term.IsSettled
  induction occurs with
  | ticket => simp [Term.holdsPlaceholder]
  | task inside _ ih | condition inside _ ih | curryTask _ inside _ ih =>
      simp only [Term.holdsPlaceholder, Bool.or_eq_false_iff,
        Term.anyHoldsPlaceholder_eq_false_iff]
      grind
  | argument bound _ ih =>
      simp only [Term.holdsPlaceholder, Bool.or_eq_false_iff,
        Term.bindingsHoldPlaceholder_eq_false_iff]
      exact fun settled => ih (settled.2 _ bound)
  | output _ _ found => simp at found
  | @curryBinding task _ _ _ bound _ ih =>
      cases task <;>
        simp only [Term.holdsPlaceholder, Bool.or_eq_false_iff,
          Term.bindingsHoldPlaceholder_eq_false_iff] <;> grind

theorem Context.Fresh.accounted (fresh : context.Fresh) : context.Accounted known where
  arena := fresh.arena.toSound
  bound stored bound occurs := absurd (fresh.arena.bound stored bound) occurs.not_isSettled
  targets term inside _ occurs := absurd (fresh.targets term inside) occurs.not_isSettled

end Fresh

section Runs

variable {run : RunId}

/-- The scheduler attends to the query, and keeps account of every
placeholder in its context. -/
structure Session.Tended (run : RunId) (query : Query)
    (scheduler : Scheduler) : Prop where
  attends : scheduler.Attends query.consumer query.id
  sameRun : scheduler.run = run
  accounted : query.context.Accounted (Scheduler.Traces run query.id scheduler)

/-- A ticket that is not waited for is finished; if it has no output for its placeholder,
it has too few of them. -/
theorem Scheduler.Traces.lacks {scheduler : Scheduler} {query : QueryId}
    {placeholder : Placeholder} (traces : Traces run query scheduler placeholder)
    (clear : scheduler.table.outstandingOf query = [])
    (missing : scheduler.table.output? placeholder.ticket placeholder.channel = none) :
    scheduler.table.Lacks placeholder := by
  obtain ⟨⟨_, _, _, positive, _⟩, waits | ⟨outputs, stored⟩⟩ := traces
  · simp [clear] at waits
  · refine ⟨outputs, stored, ?_⟩
    cases channel : placeholder.channel with
    | zero => omega
    | succ index =>
        simp only [channel, TicketTable.output?, stored, Option.bind_some,
          List.getElem?_eq_none_iff] at missing
        omega

/-- What stalls a query is found by the search. -/
theorem Context.Stalled.holds {table : TicketTable} {context : Context}
    (stalled : context.Stalled table) :
    context.arena.holdsPlaceholder context.current = true := by
  refine Arena.holdsPlaceholder_iff.mpr ?_
  cases stalled with
  | hidden inside hides => exact ⟨_, _, inside, hides.shows_⟩
  | lacking lacking =>
      obtain ⟨term, inside, placeholder, exposes, _⟩ := lacking
      exact ⟨placeholder, term, inside, exposes.shows_⟩

namespace Session

variable {query : Query} {scheduler : Scheduler} {depth : Nat} {consumer : ConsumerId}
  {id : QueryId} {context : Context} {progress : Progress}

theorem attends_begin (run : RunId) (consumer : ConsumerId)
    (id : QueryId) (context : Context) :
    (begin run consumer id context).scheduler.Attends consumer id where
  consistent := TicketTable.consistent_empty run
  created := by simp [begin, Scheduler.start, Scheduler.attach]
  literal := by simp [begin, Scheduler.start, Scheduler.attach]
  tracked := by simp [begin, Scheduler.start, Scheduler.attach, TicketTable.outstandingOf]
  unfailed := by simp [begin, Scheduler.start, Scheduler.attach]
  heard := ⟨⟨0⟩, by simp [begin, Scheduler.start, Scheduler.attach, Scheduler.mailbox]⟩

theorem Tended.begin (run : RunId) (consumer : ConsumerId)
    (id : QueryId) (fresh : context.Fresh) :
    Tended run (begin run consumer id context).query
      (begin run consumer id context).scheduler where
  attends := attends_begin run consumer id context
  sameRun := rfl
  accounted := fresh.accounted

theorem Tended.pass (tended : Tended run query scheduler) (depth : Nat) :
    Tended run (query.pass depth scheduler).2.1 (query.pass depth scheduler).2.2 ∧
      ∀ result, (query.pass depth scheduler).1 = .ok result →
        result = (query.pass depth scheduler).2.1.context.current ∧
          ∀ term ∈ result, ∀ placeholder,
          (query.pass depth scheduler).2.1.context.arena.Exposes placeholder term →
          (query.pass depth scheduler).2.2.table.output? placeholder.ticket
            placeholder.channel = none := by
  obtain ⟨⟨attends, sameRun⟩, accounted, ended⟩ :=
    tended.accounted.reduce (Scheduler.accounts_attends run query.consumer query.id)
      ⟨tended.attends, tended.sameRun⟩ depth
  exact ⟨⟨attends, sameRun, accounted⟩, ended⟩

theorem Tended.keep {after : Scheduler} (tended : Tended run query scheduler)
    (attends : after.Attends query.consumer query.id)
    (sameRun : after.run = scheduler.run)
    (retains : Scheduler.Retains query.id scheduler.table after.table) :
    Tended run query after where
  attends := attends
  sameRun := sameRun.trans tended.sameRun
  accounted := retains.accounted tended.accounted

theorem Tended.play {allowed : TicketId → List (List String) → Prop} {session : Session}
    {move : Move} (tended : Tended run session.query session.scheduler)
    (fair : Fair allowed session move) :
    Tended run (session.play move).query (session.play move).scheduler := by
  cases move with
  | step depth => exact Query.step_keeps (fun before => (before.pass depth).1) tended
  | complete ticket outputs report =>
      obtain ⟨attends, sameRun, retains⟩ := tended.attends.complete fair.2 report
      exact tended.keep attends sameRun retains
  | ask consumer other apply =>
      obtain same | ⟨placeholder, after, requested, same⟩ :=
        session.play_ask consumer other apply
      · rw [same]
        exact tended
      · rw [same]
        obtain ⟨lambda, ticket, granted⟩ := Scheduler.granted_of_request requested
        refine tended.keep (tended.attends.granted granted fun own => absurd own fair) ?_
          (granted.retains tended.attends.consistent.toIndexed session.query.id)
        change after.table.run = session.scheduler.table.run
        rw [granted.table, TicketTable.run_request]

/-- With a clear queue, every placeholder that is left after a pass stalls the query. -/
theorem Tended.stalled_iff (tended : Tended run query scheduler)
    (waiting : ∀ term ∈ query.context.current, ∀ placeholder,
      query.context.arena.Exposes placeholder term →
      scheduler.table.output? placeholder.ticket placeholder.channel = none)
    (clear : scheduler.table.outstandingOf query.id = []) :
    query.context.Stalled scheduler.table ↔
      query.context.arena.holdsPlaceholder query.context.current = true := by
  refine ⟨Context.Stalled.holds, fun holds => ?_⟩
  obtain ⟨placeholder, term, inside, shows_⟩ := Arena.holdsPlaceholder_iff.mp holds
  rcases Term.shows_iff.mp shows_ with exposes | hides
  · have missing := waiting term inside placeholder exposes
    have lacks := (tended.accounted.exposed inside exposes).lacks clear missing
    exact .lacking ⟨term, inside, placeholder, exposes, lacks⟩
  · exact .hidden inside hides

theorem Tended.settle (tended : Tended run query scheduler)
    (settled : (query.settle depth scheduler).outcome = .ok progress) :
    let stepped := query.settle depth scheduler
    (∃ soFar, progress = .pending soFar) ↔
      stepped.scheduler.table.outstandingOf query.id ≠ [] ∨
      stepped.query.context.Stalled stepped.scheduler.table := by
  intro stepped
  obtain ⟨after, ended⟩ := tended.pass depth
  obtain ⟨result, passed, outcome⟩ := Query.settle_ok settled
  obtain ⟨rfl, waiting⟩ := ended result passed
  rw [show stepped.query = _ from (query.settle_frame depth scheduler).1,
    show stepped.scheduler = _ from (query.settle_frame depth scheduler).2]
  rw [after.attends.isFailed_eq_false] at outcome
  have same : (query.pass depth scheduler).2.1.id = query.id := rfl
  have clear_iff := after.attends.isQueueClear_iff
  rw [same] at clear_iff
  by_cases clear : (query.pass depth scheduler).2.2.table.outstandingOf query.id = []
  · rw [after.stalled_iff waiting clear]
    cases holds : (query.pass depth scheduler).2.1.context.arena.holdsPlaceholder
        (query.pass depth scheduler).2.1.context.current <;>
      simp [outcome, clear_iff.mpr clear, clear, holds, same]
  · have waits : (query.pass depth scheduler).2.2.isQueueClear query.id = false :=
      Bool.eq_false_iff.mpr (mt clear_iff.mp clear)
    simp [outcome, waits, clear, same]

/-- A step leaves a query pending if it waits for a ticket, and otherwise exactly if it is
stalled: by a placeholder in a curry of several tasks, or by a ticket whose address was
given to an invocation with fewer outputs as well. -/
theorem pending_iff {session : Session} (fresh : context.Fresh)
    (reaches : Reaches (fun _ _ => True) (begin run consumer id context) session)
    (stepped : (session.query.step depth session.scheduler).outcome = .ok progress) :
    let after := session.query.step depth session.scheduler
    (∃ soFar, progress = .pending soFar) ↔ after.scheduler.table.outstandingOf id ≠ [] ∨
      after.query.context.Stalled after.scheduler.table := by
  have kept {session : Session} {move : Move}
      (before : Tended run session.query session.scheduler ∧ session.query.id = id)
      (fair : Fair (fun _ _ => True) session move) :
      Tended run (session.play move).query (session.play move).scheduler ∧
        (session.play move).query.id = id :=
    ⟨before.1.play fair, (session.id_play move).trans before.2⟩
  obtain ⟨tended, same⟩ := reaches.invariant kept ⟨.begin run consumer id fresh, rfl⟩
  obtain ⟨failed, _⟩ | ⟨last, source, ⟨reached, lastSame⟩, lastStep⟩ :=
    @Query.step_cases _ _ depth
      (fun query scheduler => Tended run query scheduler ∧ query.id = id)
      (fun before => ⟨(before.1.pass depth).1, before.2⟩) ⟨tended, same⟩
  · simp [tended.attends.isFailed_eq_false] at failed
  · simp only [lastStep] at stepped ⊢
    rw [← lastSame]
    exact reached.settle stepped

end Session

end Runs

section Samples

/-- A curry whose task is a name for two alternatives, one of which has to be copied. -/
def heldCopy : Context where
  arena :=
    { blocks := #[
        { bindings := [
          ("f", [.apply [.lambda (.foreign Store.copyTask)] [("x", [.str "1"])] 1 false,
            .str "b"])] }] }
  root := ⟨0⟩
  targets := [[.curry (some [.name "f"]) []]]

theorem fresh_heldCopy : heldCopy.Fresh where
  arena :=
    { distinct := List.nodup_nil
      within := by simp [heldCopy]
      bound := by
        rintro ⟨index⟩ block term stored ⟨binding, member, inside⟩
        cases index with
        | zero =>
            obtain rfl := Option.some.inj stored
            obtain rfl := List.mem_singleton.mp member
            obtain rfl | inside := List.mem_cons.mp inside
            · rfl
            · obtain rfl := List.mem_singleton.mp inside
              rfl
        | succ index => simp [heldCopy, Arena.block?] at stored }
  targets := by
    intro term inside
    obtain rfl := List.mem_singleton.mp inside
    rfl

/-- A curry of two tasks, of which the first is the copy. -/
def Compound.isHeldCopy : Compound → Bool
  | [.curry (some [.ticket copy, .str _]) _] => copy.ticket == copyTicket.id
  | _ => false

theorem Compound.hides_of_isHeldCopy {terms : Compound} (arena : Arena)
    (holds : terms.isHeldCopy = true) :
    ∃ term ∈ terms, ∃ copy, copy.ticket = copyTicket.id ∧ arena.Hides copy term := by
  unfold isHeldCopy at holds
  split at holds
  next copy text bindings =>
    refine ⟨_, List.mem_singleton_self _, copy, eq_of_beq holds, ?_⟩
    exact .several (Nat.le_refl 2) (.inl List.mem_cons_self) .ticket
  next => cases holds

/-- Pending, while nothing is outstanding and the copy is stored. -/
def Query.Stepped.isStranded (stepped : Query.Stepped) (id : QueryId) : Bool :=
  (match stepped.outcome with
    | .ok (.pending _) => true
    | _ => false) &&
  (stepped.scheduler.table.outstandingOf id).isEmpty &&
  stepped.scheduler.table.results.contains copyTicket.id &&
  stepped.query.context.current.isHeldCopy

theorem Query.Stepped.isStranded_iff {stepped : Query.Stepped} {id : QueryId} :
    stepped.isStranded id = true ↔
      (∃ soFar, stepped.outcome = .ok (.pending soFar)) ∧
        stepped.scheduler.table.outstandingOf id = [] ∧
        stepped.scheduler.table.results.contains copyTicket.id = true ∧
        stepped.query.context.current.isHeldCopy = true := by
  simp only [isStranded, Bool.and_eq_true, List.isEmpty_iff, and_assoc]
  refine and_congr_left fun _ => ?_
  split
  next soFar outcome => simp [outcome]
  next other => simpa using other

theorem reaches_heldCopy :
    Session.Reaches (fun _ _ => True) (Session.begin sampleRun ⟨1⟩ ⟨1⟩ heldCopy)
      (copied heldCopy) :=
  reaches_copied trivial (by decide +kernel)

/-- The session after the copy is finished and the query has been stepped again. -/
theorem stranded_heldCopy :
    ((copied heldCopy).query.step Reduction.ampleDepth (copied heldCopy).scheduler).isStranded
      ⟨1⟩ = true := by
  decide +kernel

/-- The finished copy stands in a curry of two tasks, which leaves the query pending. -/
theorem Session.stalled_heldCopy :
    ∃ stepped, (copied heldCopy).query.step Reduction.ampleDepth
      (copied heldCopy).scheduler = stepped ∧
      (∃ term ∈ stepped.query.context.current, ∃ copy, copy.ticket = copyTicket.id ∧
        stepped.query.context.arena.Hides copy term) ∧
      ∃ soFar, stepped.outcome = .ok (.pending soFar) := by
  obtain ⟨⟨soFar, outcome⟩, _, _, holds⟩ :=
    Query.Stepped.isStranded_iff.mp stranded_heldCopy
  obtain ⟨term, inside, copy, same, hides⟩ := Compound.hides_of_isHeldCopy _ holds
  obtain ⟨again, pending⟩ :=
    (Session.pending_iff fresh_heldCopy reaches_heldCopy outcome).mpr
      (.inr (.hidden inside hides))
  exact ⟨_, rfl, ⟨term, inside, copy, same, hides⟩, again, outcome.trans (congrArg _ pending)⟩

/-- Nothing is outstanding, the copy is stored, and the query is pending all the same. -/
theorem Session.pending_heldCopy :
    heldCopy.Fresh ∧ ∃ session depth soFar,
      Session.Reaches (fun _ _ => True) (Session.begin sampleRun ⟨1⟩ ⟨1⟩ heldCopy) session ∧
        (session.query.step depth session.scheduler).outcome = .ok (.pending soFar) ∧
        (session.query.step depth session.scheduler).scheduler.table.outstandingOf ⟨1⟩ = [] ∧
        (session.query.step depth session.scheduler).scheduler.table.results.contains
          copyTicket.id = true := by
  obtain ⟨⟨soFar, pending⟩, clear, stored, _⟩ :=
    Query.Stepped.isStranded_iff.mp stranded_heldCopy
  exact ⟨fresh_heldCopy, copied heldCopy, Reduction.ampleDepth, soFar, reaches_heldCopy,
    pending, clear, stored⟩

end Samples

end TicketFlow
