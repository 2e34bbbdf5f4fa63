import TicketFlow.Proofs.Evaluation.Targets
import TicketFlow.Proofs.Session.Basic

namespace TicketFlow

/-! The result of a query does not depend on the schedule.

Every ticket has outputs of its own.  Whenever they arrive, and however many of
them are stored before the query starts, the values of its targets stay what
they are, and a query that is finished is finished with their value.
-/

variable {answers : TicketId → Nat → List String} {run : RunId}

section Schedulers

/-- The outputs are those of the ticket. -/
def Given (answers : TicketId → Nat → List String) (ticket : TicketId)
    (outputs : List (List String)) : Prop :=
  ∀ index values, outputs[index]? = some values → values = answers ticket (index + 1)

/-- Everything stored so far is an output of its ticket. -/
structure Scheduler.Agrees (answers : TicketId → Nat → List String) (run : RunId)
    (scheduler : Scheduler) : Prop where
  run : scheduler.run = run
  consistent : scheduler.table.Consistent
  answered :
    ∀ {ticket outputs index value}, scheduler.table.results.get? ticket = some outputs →
    outputs[index]? = some value → value = Compound.strs (answers ticket (index + 1))

namespace Scheduler.Agrees

variable {scheduler after : Scheduler} {consumer : ConsumerId} {query : QueryId}
  {apply : Apply} {placeholder : Placeholder}

theorem begin (answers : TicketId → Nat → List String) (run : RunId)
    (consumer : ConsumerId) (id : QueryId) (context : Context) :
    (Session.begin run consumer id context).scheduler.Agrees answers run where
  run := rfl
  consistent := TicketTable.consistent_empty run
  answered := by simp [Session.begin, Scheduler.start, Scheduler.attach]

theorem request (agrees : scheduler.Agrees answers run)
    (requested : scheduler.request consumer query apply = .ok (placeholder, after)) :
    after.Agrees answers run := by
  obtain ⟨lambda, ticket, granted⟩ := Scheduler.granted_of_request requested
  have table := granted.table
  exact
    { run := by rw [Scheduler.run, table, TicketTable.run_request]; exact agrees.run
      consistent := by rw [table]; exact agrees.consistent.request consumer query ticket
      answered := by
        intro id outputs index value stored
        rw [table, TicketTable.results_request] at stored
        exact fun chosen => agrees.answered stored chosen }

theorem detach (agrees : scheduler.Agrees answers run) (consumer : ConsumerId) :
    (scheduler.detach consumer).Agrees answers run where
  run := (TicketTable.run_detach scheduler.table consumer).trans agrees.run
  consistent := agrees.consistent.detach consumer
  answered := by
    have same : (scheduler.detach consumer).table.results = scheduler.table.results :=
      TicketTable.results_detach scheduler.table consumer
    intro ticket outputs index value stored chosen
    rw [same] at stored
    exact agrees.answered stored chosen

theorem reply (agrees : scheduler.Agrees answers run) {reply : Reply}
    (given : ∀ ticket outputs report, reply = .finished ticket outputs report →
      ∃ values, outputs = values.map Compound.strs ∧ Given answers ticket values) :
    (scheduler.reply reply).Agrees answers run := by
  have accepted : ({ scheduler with table := (scheduler.table.reply reply).2 } :
      Scheduler).Agrees answers run :=
    { run := (TicketTable.run_reply scheduler.table reply).trans agrees.run
      consistent := agrees.consistent.perform (.reply reply)
      answered := by
        intro id stored index value found chosen
        rcases TicketTable.results_reply found with before | ⟨report, same⟩
        · exact agrees.answered before chosen
        · obtain ⟨values, rfl, given⟩ := given id stored report same
          obtain ⟨picked, inside, rfl⟩ :=
            Option.map_eq_some_iff.mp (List.getElem?_map.symm.trans chosen)
          rw [given index picked inside] }
  exact Scheduler.foldl_deliver (fun before => { before with })
    (fun before _ _ => before.detach _) accepted

theorem complete (agrees : scheduler.Agrees answers run)
    {ticket : TicketId} {outputs : List (List String)}
    (given : Given answers ticket outputs) (report : List ReportEntry) :
    (scheduler.reply (.finished ticket (outputs.map Compound.strs) report)).Agrees
      answers run := by
  refine agrees.reply fun id stored told same => ?_
  obtain ⟨rfl, rfl, _⟩ := Reply.finished.inj same
  exact ⟨outputs, rfl, given⟩

end Scheduler.Agrees

end Schedulers

namespace Store

/-- The store that has the outputs of every ticket of a run. -/
def answering (run : RunId) (answers : TicketId → Nat → List String) : Store where
  identity lambda bindings := (Ticket.create run lambda bindings).id
  outputs ticket channel := some (answers ticket channel)

/-- What that store knows, as an oracle that rejects nothing. -/
def lenient (store : Store) : Oracle :=
  { store.oracle with fallback := some [] }

theorem oracle_noStricter (store : Store) :
    Oracle.NoStricter store.oracle store.lenient :=
  ⟨rfl, rfl, .inl rfl⟩

/-- A scheduler in which every ticket has its own outputs backs every pass
as the full store does. -/
theorem backs_answering (answers : TicketId → Nat → List String)
    (run : RunId) (consumer : ConsumerId) (query : QueryId) :
    Backs (answering run answers).lenient consumer query
      (Scheduler.Agrees answers run) False False where
  request := by
    intro scheduler after apply placeholder agrees requested
    obtain ⟨lambda, ticket, granted⟩ := Scheduler.granted_of_request requested
    refine ⟨agrees.request requested,
      (answering run answers).placeholder apply lambda, ?_, ?_, False.elim⟩
    · simp [lenient, oracle, granted.task, Except.toOption]
    · have sameTicket :
          placeholder.ticket = (Ticket.create run lambda apply.bindings).id := by
        rw [granted.issued, agrees.consistent.id_request, granted.created, agrees.run]
      simp [Oracle.settle, lenient, oracle, answering, Store.placeholder, sameTicket,
        granted.channel]
  read agrees := agrees
  output := by
    intro scheduler id channel value agrees found
    change scheduler.table.output? id channel = some value at found
    cases channel with
    | zero => simp [TicketTable.output?] at found
    | succ index =>
        obtain ⟨outputs, stored, chosen⟩ := Option.bind_eq_some_iff.mp found
        simp [lenient, oracle, answering, agrees.answered stored chosen]
  literal := (answering run answers).literal_oracle
  told := False.elim
  answers := False.elim

end Store

/-- Some schedule finishes the context with the result. -/
def Context.Finishes (context : Context) (answers : TicketId → Nat → List String)
    (run : RunId) (result : Compound) : Prop :=
  ∃ start session depth, start.query.context = context ∧
    start.scheduler.Agrees answers run ∧ Session.Reaches (Given answers) start session ∧
    (session.query.step depth session.scheduler).outcome = .ok (.finished result)

section Sessions

variable {context : Context} {block : Block} {result : Compound}

/-- The context of a session still means what it meant at the start. -/
structure Session.Keeps (answers : TicketId → Nat → List String)
    (run : RunId) (block : Block) (meaning : Compound → Prop) (query : Query)
    (scheduler : Scheduler) : Prop where
  means : query.context.Means (Store.answering run answers).lenient block meaning
  agrees : scheduler.Agrees answers run

variable {meaning : Compound → Prop} {query : Query} {scheduler : Scheduler} {depth : Nat}

theorem Session.Keeps.pass (keeps : Keeps answers run block meaning query scheduler)
    (scope : PlainScope block.get?) (parentless : block.parent = none) (depth : Nat) :
    Keeps answers run block meaning (query.pass depth scheduler).2.1
      (query.pass depth scheduler).2.2 ∧
      ∀ result, (query.pass depth scheduler).1 = .ok result →
        result = (query.pass depth scheduler).2.1.context.current ∧
          ((∀ term ∈ result, term.IsSettled) →
            (Store.answering run answers).lenient.HasValue block.get? result result) := by
  obtain ⟨agrees, means, ended⟩ :=
    keeps.means.reduce (Store.backs_answering answers run query.consumer query.id)
      (by simp [Store.lenient]) scope parentless keeps.agrees depth
  exact ⟨⟨means, agrees⟩, ended⟩

theorem Session.Keeps.step (keeps : Keeps answers run block meaning query scheduler)
    (scope : PlainScope block.get?) (parentless : block.parent = none) :
    Keeps answers run block meaning (query.step depth scheduler).query
      (query.step depth scheduler).scheduler :=
  Query.step_keeps (fun before => (before.pass scope parentless depth).1) keeps

theorem Session.Keeps.play {session : Session} {move : Session.Move}
    (keeps : Keeps answers run block meaning session.query session.scheduler)
    (scope : PlainScope block.get?) (parentless : block.parent = none)
    (fair : Session.Fair (Given answers) session move) :
    Keeps answers run block meaning (session.play move).query
      (session.play move).scheduler := by
  cases move with
  | step depth => exact keeps.step scope parentless
  | complete ticket outputs report =>
      exact ⟨keeps.means, keeps.agrees.complete fair.1 report⟩
  | ask consumer query apply =>
      obtain same | ⟨placeholder, scheduler, requested, same⟩ :=
        session.play_ask consumer query apply
      · rw [same]
        exact keeps
      · rw [same]
        exact ⟨keeps.means, keeps.agrees.request requested⟩

theorem Session.Keeps.reaches {start session : Session}
    (keeps : Keeps answers run block meaning start.query start.scheduler)
    (scope : PlainScope block.get?) (parentless : block.parent = none)
    (reaches : Session.Reaches (Given answers) start session) :
    Keeps answers run block meaning session.query session.scheduler := by
  have kept {session : Session} {move : Session.Move}
      (before : Keeps answers run block meaning session.query session.scheduler)
      (fair : Session.Fair (Given answers) session move) :
      Keeps answers run block meaning (session.play move).query
        (session.play move).scheduler :=
    before.play scope parentless fair
  exact reaches.invariant kept keeps

/-- A query is finished with a value of its targets. -/
theorem Session.Keeps.finished (keeps : Keeps answers run block meaning query scheduler)
    (scope : PlainScope block.get?) (parentless : block.parent = none)
    (finished : (query.step depth scheduler).outcome = .ok (.finished result)) :
    meaning result := by
  obtain ⟨_, same⟩ | ⟨last, source, reached, same⟩ :=
    Query.step_cases (fun before => (before.pass scope parentless depth).1) keeps
  · simp [same] at finished
  · rw [same] at finished
    obtain ⟨passed, _, free⟩ := Query.settle_finished finished
    obtain ⟨after, ended⟩ := reached.pass scope parentless depth
    obtain ⟨current, valued⟩ := ended result passed
    refine (after.means.values result).mp ?_
    rw [← current]
    exact valued fun term member =>
      Term.isSettled_of_holdsPlaceholder term
        (Term.anyHoldsPlaceholder_eq_false_iff.mp free term member)

/-- All schedules that finish a plain context finish it with the same result.
It is the one that the original targets have with all outputs at hand, unless
they are rejected then. -/
theorem Context.Finishes.schedule_independent
    (scope : PlainScope block.get?) (parentless : block.parent = none)
    (stored : context.arena.block? context.root = some block)
    (plain : ∀ target ∈ context.targets, Term.AreAllPlain block.get? target)
    (finishes : context.Finishes answers run result) :
    (∀ other, context.Finishes answers run other → result = other) ∧
      ∀ depth consumer query whole,
        (context.reduce depth (Store.answering run answers) consumer query).outcome =
          .ok whole → result = whole := by
  have meant {other : Compound} (finishes : context.Finishes answers run other) :
      (Store.answering run answers).lenient.HasValue block.get? context.current other := by
    obtain ⟨start, session, depth, rfl, agrees, reaches, finished⟩ := finishes
    have begins : Session.Keeps answers run block _ start.query start.scheduler :=
      ⟨⟨stored, plain, fun value => Iff.rfl⟩, agrees⟩
    exact (begins.reaches scope parentless reaches).finished scope parentless finished
  refine ⟨fun other again => (meant finishes).unique (meant again),
    fun depth consumer query whole ideal => ?_⟩
  obtain ⟨_, ⟨⟨reason, failed⟩, _⟩ | ⟨targets, resumed, ended, _⟩⟩ :=
    ((Store.Within.refl (Store.answering run answers)).backs consumer query).reduce_context
      scope parentless stored plain rfl depth
  · simp [failed] at ideal
  · obtain ⟨within, whole'⟩ := Resumed.flatten resumed
    rw [ended, Except.ok.injEq] at ideal
    have valued :
        (Store.answering run answers).oracle.HasValue block.get? context.current whole :=
      ⟨within, ideal ▸ whole'.value rfl⟩
    exact (meant finishes).unique (valued.noStricter (Store.oracle_noStricter _))

end Sessions

section Samples

def twoOutputs (_ : TicketId) (_ : Nat) : List String := ["q", "r"]

def sampleRun : RunId := ⟨Uuid.nil⟩

def copyTicket : Ticket := Ticket.create sampleRun Store.copyTask [("x", [.str "1"])]

def steppedOnce (context : Context) : Session :=
  (Session.begin sampleRun ⟨1⟩ ⟨1⟩ context).play (.step Reduction.ampleDepth)

/-- The session after a step and the completion of the copy. -/
def copied (context : Context) : Session :=
  (steppedOnce context).play (.complete copyTicket.id [twoOutputs copyTicket.id 1] [])

def Progress.isFinished : Except Halt Progress → Bool
  | .ok (.finished _) => true
  | _ => false

theorem given_copied : Given twoOutputs copyTicket.id [twoOutputs copyTicket.id 1] := by
  intro index values found
  cases index with
  | zero => exact (Option.some.inj found).symm
  | succ index => simp at found

theorem reaches_copied {allowed : TicketId → List (List String) → Prop}
    {context : Context} (given : allowed copyTicket.id [twoOutputs copyTicket.id 1])
    (counted : ((steppedOnce context).scheduler.table.cached? copyTicket.id).all
      (fun cached => cached.arity == 1) = true) :
    Session.Reaches allowed (Session.begin sampleRun ⟨1⟩ ⟨1⟩ context) (copied context) := by
  have fair : Session.Fair allowed (steppedOnce context)
      (.complete copyTicket.id [twoOutputs copyTicket.id 1] []) := by
    refine ⟨given, fun cached known => ?_⟩
    rw [known] at counted
    exact (eq_of_beq counted).symm
  exact .play (.play .start trivial) fair

theorem exists_finishes {context : Context}
    (counted : ((steppedOnce context).scheduler.table.cached? copyTicket.id).all
      (fun cached => cached.arity == 1) = true) (finished : Progress.isFinished
      ((copied context).query.step Reduction.ampleDepth (copied context).scheduler).outcome =
      true) :
    ∃ result, context.Finishes twoOutputs sampleRun result := by
  cases outcome : ((copied context).query.step Reduction.ampleDepth
    (copied context).scheduler).outcome with
  | error reason => simp [outcome, Progress.isFinished] at finished
  | ok progress =>
      cases progress with
      | finished result =>
          exact ⟨result, _, copied context, _, rfl, .begin _ _ _ _ _,
            reaches_copied given_copied counted, outcome⟩
      | pending soFar => simp [outcome, Progress.isFinished] at finished
      | failed => simp [outcome, Progress.isFinished] at finished

/-- A copy that is a target by itself. -/
def copyOnce : Context where
  arena := { blocks := #[Store.copyBlock] }
  root := ⟨0⟩
  targets := [[.apply [.name "copy"] [("x", [.str "1"])] 1 false]]

theorem copyOnce_plain :
    ∀ target ∈ copyOnce.targets, Term.AreAllPlain Store.copyBlock.get? target := by
  intro target member
  rw [List.mem_singleton.mp member]
  exact ⟨⟨⟨trivial, trivial⟩,
    ⟨⟨trivial, trivial⟩, trivial⟩, fun _ => Store.separate_of_resolved_copy⟩, trivial⟩

theorem Context.finishes_copyOnce :
    copyOnce.Finishes twoOutputs sampleRun (Compound.strs ["q", "r"]) ∧
      ∀ other, copyOnce.Finishes twoOutputs sampleRun other →
        Compound.strs ["q", "r"] = other := by
  obtain ⟨result, finishes⟩ : ∃ result, copyOnce.Finishes twoOutputs sampleRun result :=
    exists_finishes (by decide +kernel) (by decide +kernel)
  obtain ⟨unique, ideal⟩ :=
    finishes.schedule_independent Store.plainScope_copyBlock rfl rfl copyOnce_plain
  have same : result = Compound.strs ["q", "r"] := ideal 9 ⟨1⟩ ⟨1⟩ _ rfl
  exact ⟨same ▸ finishes, same ▸ unique⟩

def pairTask : ForeignLambda where
  name := "pair"
  prototype := { params := [.plain "a", .plain "b"], outputs := ["y"], correlated := true }
  lang := "bash"
  script := "pair $a $b"

/-- Pairs of a copy and a string, as an argument that nothing uses. -/
def unusedPairs : Context where
  arena := { blocks := #[{}] }
  root := ⟨0⟩
  targets :=
    let copies : Compound :=
      [.apply [.lambda (.foreign Store.copyTask)] [("x", [.str "1"])] 1 false]
    [[.apply [] [("x", [.apply
      [.lambda (.foreign pairTask)] [("a", copies), ("b", [.str "p"])] 1 false])] 1 false]]

theorem plainScope_unusedPairs : PlainScope (Block.get? {}) where
  plain found := by simp [Block.get?] at found
  acyclic := by
    intro name circle
    have mentionsNothing : ∀ outer inner, ¬Mentions (Block.get? {}) outer inner := by
      rintro outer inner ⟨bound, found, _⟩
      simp [Block.get?] at found
    cases circle with
    | single mentions => exact mentionsNothing _ _ mentions
    | tail _ mentions => exact mentionsNothing _ _ mentions

theorem unusedPairs_plain :
    ∀ target ∈ unusedPairs.targets, Term.AreAllPlain (Block.get? {}) target := by
  have lambdaSeparate (lambda : Lambda) (alternatives : Compound)
      (resolved : Resolved (Block.get? {}) [.lambda lambda] alternatives) :
        Separate alternatives := by
    rw [resolved.eq_of_unbound (by simp)]
    intro other member _
    rw [List.mem_singleton.mp member]
  have nilSeparate (alternatives : Compound)
      (resolved : Resolved (Block.get? {}) [] alternatives) : Separate alternatives := by
    rw [resolved.eq_of_unbound (by simp)]
    intro lambda member
    simp at member
  intro target member
  rw [List.mem_singleton.mp member]
  have copiesPlain : Term.IsPlain (Block.get? {})
      (.apply [.lambda (.foreign Store.copyTask)] [("x", [.str "1"])] 1 false) :=
    ⟨⟨trivial, trivial⟩, ⟨⟨trivial, trivial⟩, trivial⟩, lambdaSeparate _⟩
  have pairsPlain : Term.IsPlain (Block.get? {})
      (.apply [.lambda (.foreign pairTask)]
        [("a", [.apply [.lambda (.foreign Store.copyTask)] [("x", [.str "1"])] 1 false]),
          ("b", [.str "p"])] 1 false) :=
    ⟨⟨trivial, trivial⟩, ⟨⟨copiesPlain, trivial⟩, ⟨trivial, trivial⟩, trivial⟩,
      lambdaSeparate _⟩
  exact ⟨⟨trivial, ⟨⟨pairsPlain, trivial⟩, trivial⟩, nilSeparate⟩, trivial⟩

def isMismatch : Except Halt Compound → Bool
  | .error (.rejected (.correlationMismatch _ _)) => true
  | _ => false

/-- A copy that comes to two strings cannot be paired with one.  With the copy at
hand that is an error; a query that has to wait for it drops the unused argument
first, and is finished. -/
theorem Context.finishes_unusedPairs :
    PlainScope (Block.get? {}) ∧
      (∀ target ∈ unusedPairs.targets, Term.AreAllPlain (Block.get? {}) target) ∧
      (∃ result, unusedPairs.Finishes twoOutputs sampleRun result) ∧
      ∃ apply lengths,
        (unusedPairs.reduce Reduction.ampleDepth (Store.answering sampleRun twoOutputs)
          ⟨1⟩ ⟨1⟩).outcome = .error (.rejected (.correlationMismatch apply lengths)) := by
  refine ⟨plainScope_unusedPairs, unusedPairs_plain,
    exists_finishes (by decide +kernel) (by decide +kernel), ?_⟩
  have rejected : isMismatch
      (unusedPairs.reduce Reduction.ampleDepth (Store.answering sampleRun twoOutputs) ⟨1⟩
        ⟨1⟩).outcome = true := by
    decide +kernel
  unfold isMismatch at rejected
  split at rejected
  next apply lengths outcome => exact ⟨apply, lengths, outcome⟩
  next => simp at rejected

end Samples

end TicketFlow
