import TicketFlow.Proofs.Arena.Agreement
import TicketFlow.Proofs.Reduction.Expansion
import TicketFlow.Proofs.Reduction.Frame
import TicketFlow.Proofs.Reduction.Sources

namespace TicketFlow

/-! Reductions that come to an end.

The depth of a reduction only bounds how far it unfolds.  It comes to an end if
from some depth on the outcome is always the same, and is not that the depth was
too small or that a chain of parents has no end.  What is done one after the
other comes to an end if each part does, in whatever state the parts before it
have led to.
-/

variable {σ α β : Type} [TicketSource σ]

section Faults

variable {arena : Arena} {slot : BlockId} {fault : Arena.Fault}

theorem Arena.get_error (failed : arena.get slot = .error fault) :
    fault = .outOfRange slot := by
  unfold Arena.get at failed
  split at failed
  · simp at failed
  · exact (Except.error.inj failed).symm

theorem Arena.cloneBlock_error (failed : arena.cloneBlock slot = .error fault) :
    fault = .outOfRange slot := by
  unfold cloneBlock at failed
  cases read : arena.get slot with
  | ok block => simp [read, Except.map] at failed
  | error other =>
      obtain rfl : other = fault := by simpa [read, Except.map] using failed
      exact get_error read

theorem Arena.bindAll_error {bindings : Bindings}
    (failed : arena.bindAll slot bindings = .error fault) : fault = .outOfRange slot := by
  induction bindings generalizing arena with
  | nil => simp [bindAll] at failed
  | cons binding rest ih =>
      obtain ⟨name, value⟩ := binding
      unfold bindAll at failed
      split at failed
      · exact ih failed
      next bound =>
        unfold Arena.bind at bound
        cases read : arena.get slot with
        | ok block => simp [read, Except.map] at bound
        | error first =>
            obtain rfl : first =
                fault := by simpa [read, Except.map, Except.error.inj failed] using bound
            exact get_error read

end Faults

/-- The pass was ended by what it found, and not because it would have
gone on for too long. -/
def Halt.Proper : Halt → Prop
  | .exhausted | .fault (.endlessChain _) => False
  | .rejected _ | .fault _ => True

/-- Blocks have been made, the source has been called, and nothing else has changed. -/
structure Pass.Proceeds (before after : Pass σ) : Prop where
  framed : before.Framed after
  asks : before.Asks after

theorem Pass.conservation_proceeds :
    Conservation (Proceeds : Pass σ → Pass σ → Prop) where
  refl pass := ⟨conservation_framed.refl pass, conservation_asks.refl pass⟩
  trans first second :=
    ⟨conservation_framed.trans first.framed second.framed,
      conservation_asks.trans first.asks second.asks⟩
  made preserves sound := ⟨conservation_framed.made preserves sound,
    conservation_asks.made preserves sound⟩
  asked granted := ⟨conservation_framed.asked granted, conservation_asks.asked granted⟩
  read pass id channel := ⟨conservation_framed.read pass id channel,
    conservation_asks.read pass id channel⟩
  entered proceeds := ⟨conservation_framed.entered proceeds.framed,
    conservation_asks.entered proceeds.asks⟩
  resolved unmarked proceeds :=
    ⟨conservation_framed.resolved unmarked proceeds.framed,
      conservation_asks.resolved unmarked proceeds.asks⟩

namespace PassM

def Concludes (good : α → Prop) : Except Halt α → Prop
  | .ok value => good value
  | .error reason => reason.Proper

/-- With enough depth the action always comes to the same: a good value, or a reason
for there being none. -/
def Stops (good : α → Prop) (family : Nat → PassM σ α) (pass : Pass σ) : Prop :=
  ∃ least outcome after, (∀ depth, least ≤ depth → family depth pass = (outcome, after)) ∧
    pass.Proceeds after ∧ Concludes good outcome

section Rules

variable {good : α → Prop} {better : β → Prop} {action : PassM σ α}
  {family : Nat → PassM σ α} {pass : Pass σ}

theorem Stops.of_conserves (conserves : action.Conserves Pass.Proceeds)
    (concludes : Concludes good (action pass).1) : Stops good (fun _ => action) pass :=
  ⟨0, _, _, fun _ _ => rfl, conserves pass, concludes⟩

theorem stops_pure {value : α} (fine : good value) :
    Stops good (fun _ => pure value) pass :=
  .of_conserves (Pass.conservation_proceeds.pure value) fine

theorem stops_halt {reason : Halt} (proper : reason.Proper) :
    Stops good (fun _ => (halt reason : PassM σ α)) pass :=
  .of_conserves (Pass.conservation_proceeds.halt reason) proper

theorem stops_view {f : Pass σ → α} (fine : good (f pass)) :
    Stops good (fun _ => view f) pass :=
  .of_conserves (Pass.conservation_proceeds.view f) fine

theorem stops_inspect {f : Arena → Except Arena.Fault α} {value : α}
    (read : f pass.arena = .ok value) (fine : good value) :
    Stops good (fun _ => inspect f) pass := by
  refine .of_conserves (Pass.conservation_proceeds.inspect f) ?_
  simp only [inspect, read]
  exact fine

theorem stops_require {error : ReduceError} {option : Option α}
    (fine : ∀ value, option = some value → good value) :
    Stops good (fun _ => (Reduction.require error option : PassM σ α)) pass := by
  cases option with
  | none => exact stops_halt trivial
  | some value => exact stops_pure (fine value rfl)

theorem Stops.bind {next : Nat → α → PassM σ β} (first : Stops good family pass)
    (second : ∀ value after, pass.Proceeds after → good value →
      Stops better (fun depth => next depth value) after) :
    Stops better (fun depth => family depth >>= next depth) pass := by
  obtain ⟨least, outcome, after, same, proceeds, concludes⟩ := first
  cases outcome with
  | error reason =>
      refine ⟨least, .error reason, after, fun depth enough => ?_, proceeds, concludes⟩
      show (family depth >>= next depth) pass = _
      rw [bind_run, same depth enough]
  | ok value =>
      obtain ⟨more, outcome, final, sameThen, further, concludes⟩ :=
        second value after proceeds concludes
      refine ⟨max least more, outcome, final, fun depth enough => ?_,
        Pass.conservation_proceeds.trans proceeds further, concludes⟩
      show (family depth >>= next depth) pass = _
      rw [bind_run, same depth (Nat.le_trans (Nat.le_max_left _ _) enough)]
      exact sameThen depth (Nat.le_trans (Nat.le_max_right _ _) enough)

theorem Stops.inScope {scope : BlockId} (stops : Stops good family (enter scope pass)) :
    Stops good (fun depth => PassM.inScope scope (family depth)) pass := by
  obtain ⟨least, outcome, after, same, proceeds, concludes⟩ := stops
  refine ⟨least, outcome, leave after, fun depth enough => ?_,
    Pass.conservation_proceeds.entered proceeds, concludes⟩
  simp only [PassM.inScope, same depth enough]

theorem Stops.whileResolving {key : BlockId × String} (unmarked : key ∉ pass.resolving)
    (stops : Stops good family { pass with resolving := key :: pass.resolving }) :
    Stops good (fun depth => PassM.whileResolving key (family depth)) pass := by
  obtain ⟨least, outcome, after, same, proceeds, concludes⟩ := stops
  refine ⟨least, outcome,
    { after with resolving := after.resolving.filter fun other => other != key },
    fun depth enough => ?_, Pass.conservation_proceeds.resolved unmarked proceeds, concludes⟩
  simp only [PassM.whileResolving, same depth enough]

/-- Results that are fine one by one are fine when they are joined. -/
theorem stops_joinMap {fine : Term → Prop} {f : Nat → β → PassM σ Compound}
    {values : List β} (each : ∀ value ∈ values, ∀ after, pass.Proceeds after →
      Stops (fun result => ∀ term ∈ result, fine term) (fun depth => f depth value) after) :
    Stops (fun result => ∀ term ∈ result, fine term)
      (fun depth => joinMap (f depth) values) pass := by
  induction values generalizing pass with
  | nil => exact stops_pure (by simp)
  | cons value rest ih =>
      rw [List.forall_mem_cons] at each
      refine (each.1 pass (Pass.conservation_proceeds.refl pass)).bind
        fun head middle reached fineHead => ?_
      have rest := ih fun value among after further => each.2 value among after
        (Pass.conservation_proceeds.trans reached further)
      exact rest.bind fun tail after _ fineTail =>
        stops_pure (List.forall_mem_append.mpr ⟨fineHead, fineTail⟩)

theorem stops_mapEntries {κ : Type} {f : Nat → β → PassM σ α} {entries : List (κ × β)}
    (each : ∀ entry ∈ entries,
      ∀ after, pass.Proceeds after → Stops good (fun depth => f depth entry.2) after) :
    Stops (fun _ => True) (fun depth => mapEntries (f depth) entries) pass := by
  induction entries generalizing pass with
  | nil => exact stops_pure trivial
  | cons entry rest ih =>
      rw [List.forall_mem_cons] at each
      refine (each.1 pass (Pass.conservation_proceeds.refl pass)).bind
        fun head middle reached _ => ?_
      have rest := ih fun entry among after further => each.2 entry among after
        (Pass.conservation_proceeds.trans reached further)
      exact rest.bind fun tail after _ _ => stops_pure trivial

end Rules

end PassM

/-- Nothing in the term is a native lambda or a curry. -/
inductive Term.FirstOrder : Term → Prop where
  | name (name : String) : FirstOrder (.name name)
  | str (value : String) : FirstOrder (.str value)
  | ticket (placeholder : Placeholder) : FirstOrder (.ticket placeholder)
  | foreign (lambda : ForeignLambda) : FirstOrder (.lambda (.foreign lambda))
  | apply {task : Compound} {bindings : Bindings} {channel : Nat} {rest : Bool} :
      (∀ term ∈ task, FirstOrder term) →
      (∀ term, BoundIn bindings term → FirstOrder term) →
      FirstOrder (.apply task bindings channel rest)
  | cond {condition : Compound} {prototype : Prototype}
      {channel : Nat} {thenBlock elseBlock : BlockId} :
      (∀ term ∈ condition, FirstOrder term) →
      FirstOrder (.cond condition prototype channel thenBlock elseBlock)

namespace Term

mutual

def isFirstOrder : Term → Bool
  | .name _ | .str _ | .ticket _ | .lambda (.foreign _) => true
  | .apply task bindings _ _ => areAllFirstOrder task && areBindingsFirstOrder bindings
  | .cond condition _ _ _ _ => areAllFirstOrder condition
  | .lambda (.native _) | .curry .. => false
termination_by structural term => term

def areAllFirstOrder : List Term → Bool
  | [] => true
  | term :: rest => term.isFirstOrder && areAllFirstOrder rest
termination_by structural terms => terms

def areBindingsFirstOrder : List (String × List Term) → Bool
  | [] => true
  | (_, value) :: rest => areAllFirstOrder value && areBindingsFirstOrder rest
termination_by structural bindings => bindings

end

theorem areAllFirstOrder_iff {terms : List Term} :
    areAllFirstOrder terms = true ↔ ∀ term ∈ terms, term.isFirstOrder = true := by
  induction terms with
  | nil => simp [areAllFirstOrder]
  | cons term rest ih => simp [areAllFirstOrder, ih]

theorem areBindingsFirstOrder_iff {bindings : List (String × List Term)} :
    areBindingsFirstOrder bindings = true ↔
      ∀ term, BoundIn bindings term → term.isFirstOrder = true := by
  induction bindings with
  | nil => simp [areBindingsFirstOrder, boundIn_nil]
  | cons binding rest ih =>
      simp only [areBindingsFirstOrder, Bool.and_eq_true, areAllFirstOrder_iff, ih,
        boundIn_cons, or_imp, forall_and]

theorem FirstOrder.check {term : Term} (firstOrder : term.FirstOrder) :
    term.isFirstOrder = true := by
  induction firstOrder with
  | apply _ _ task bindings =>
      rw [isFirstOrder, areAllFirstOrder_iff.mpr task,
        areBindingsFirstOrder_iff.mpr bindings]
      rfl
  | cond _ condition => exact areAllFirstOrder_iff.mpr condition
  | _ => rfl

mutual

theorem firstOrder_of_check : ∀ term : Term, term.isFirstOrder = true → term.FirstOrder
  | .name _, _ => .name _
  | .str _, _ => .str _
  | .ticket _, _ => .ticket _
  | .lambda (.foreign _), _ => .foreign _
  | .apply task bindings _ _, holds => by
      rw [isFirstOrder, Bool.and_eq_true] at holds
      exact .apply (allFirstOrder_of_check task holds.1)
        (bindingsFirstOrder_of_check bindings holds.2)
  | .cond condition _ _ _ _, holds => .cond (allFirstOrder_of_check condition holds)
termination_by structural term => term

theorem allFirstOrder_of_check :
    ∀ terms : List Term, areAllFirstOrder terms = true → ∀ term ∈ terms, term.FirstOrder
  | [], _ => by simp
  | term :: rest, holds => by
      rw [areAllFirstOrder, Bool.and_eq_true] at holds
      exact List.forall_mem_cons.mpr
        ⟨firstOrder_of_check term holds.1, allFirstOrder_of_check rest holds.2⟩
termination_by structural terms => terms

theorem bindingsFirstOrder_of_check :
    ∀ bindings : List (String × List Term), areBindingsFirstOrder bindings = true →
      ∀ term, BoundIn bindings term → term.FirstOrder
  | [], _ => fun _ bound => absurd bound boundIn_nil
  | (_, value) :: rest, holds => by
      rw [areBindingsFirstOrder, Bool.and_eq_true] at holds
      intro term bound
      rcases boundIn_cons.mp bound with here | later
      · exact allFirstOrder_of_check value holds.1 term here
      · exact bindingsFirstOrder_of_check rest holds.2 term later
termination_by structural bindings => bindings

end

instance (term : Term) : Decidable term.FirstOrder :=
  decidable_of_iff (term.isFirstOrder = true) ⟨firstOrder_of_check term, FirstOrder.check⟩

/-- Applying the term runs nothing in the pass. -/
def Passive (term : Term) : Prop :=
  ∀ native, term ≠ .lambda (.native native)

end Term

/-- All outputs that the source comes to have, while it answers the query, are strings. -/
def Pass.Literal (pass : Pass σ) : Prop :=
  ∀ later, Relation.ReflTransGen (TicketSource.Serves pass.consumer pass.query) pass.source
    later → ∀ id channel value, TicketSource.output? later id channel = some value →
    ∀ term ∈ value, ∃ text, term = .str text

theorem TicketSource.Literal.start {sound : σ → Prop}
    (literal : TicketSource.Literal sound) {source : σ} (holds : sound source)
    (consumer : ConsumerId) (query : QueryId) (arena : Arena) (root : BlockId) :
    (Pass.start consumer query source arena root).Literal :=
  fun _ served _ _ _ found => literal.literal (literal.toStable.serves holds served) found

theorem Pass.Literal.proceeds {before after : Pass σ} (literal : before.Literal)
    (proceeds : before.Proceeds after) : after.Literal := by
  intro later granted
  rw [proceeds.asks.consumer, proceeds.asks.query] at granted
  exact literal later (proceeds.asks.source.trans granted)

namespace Reduction

open PassM

abbrev AllPassive (terms : Compound) : Prop :=
  ∀ term ∈ terms, term.Passive

variable {pass : Pass σ}

theorem stops_reduce {terms : Compound}
    (each : ∀ term ∈ terms, ∀ after, pass.Proceeds after →
      Stops AllPassive (fun depth => reduceTerm (reduce depth) term) after) :
    Stops AllPassive (fun depth => reduce depth terms) pass := by
  obtain ⟨least, outcome, after, same, further⟩ := stops_joinMap each
  refine ⟨least + 1, outcome, after, fun depth enough => ?_, further⟩
  obtain ⟨depth, rfl⟩ := Nat.exists_eq_add_of_le' (Nat.le_of_add_left_le enough)
  exact same depth (Nat.le_of_add_le_add_right enough)

theorem stops_resolve (literal : pass.Literal) (placeholder : Placeholder) :
    Stops AllPassive (fun _ => resolve placeholder) pass := by
  refine .of_conserves (Pass.conservation_proceeds.resolve placeholder) ?_
  rw [resolve_run]
  intro term among native
  cases found : TicketSource.output? pass.source placeholder.ticket placeholder.channel with
  | none =>
      rw [found, Option.getD_none, List.mem_singleton] at among
      simp [among]
  | some value =>
      rw [found, Option.getD_some] at among
      obtain ⟨text, rfl⟩ := literal _ .refl _ _ _ found term among
      simp

theorem stops_requestTicket (apply : Apply) :
    Stops (fun _ => True) (fun _ => requestTicket apply) pass := by
  refine .of_conserves (Pass.conservation_proceeds.requestTicket apply) ?_
  unfold requestTicket
  split <;> trivial

theorem stops_reducePart {part : Part} (literal : pass.Literal)
    (foreign : ∀ invocation, part = .invoke invocation →
      ∃ lambda, invocation.lambda = .foreign lambda) :
    Stops AllPassive (fun depth => reducePart (reduce depth) part) pass := by
  have stays (apply : Apply) : AllPassive [apply.toTerm] := by
    intro term among native
    rw [List.mem_singleton] at among
    simp [among, Apply.toTerm]
  cases part with
  | keep apply => exact stops_pure (stays apply)
  | reject error => exact stops_halt trivial
  | invoke invocation =>
      obtain ⟨lambda, task⟩ := foreign invocation rfl
      simp only [reducePart, reduceInvocation, task]
      refine (stops_require fun _ _ => trivial : Stops (fun _ => True) _ pass).bind
        fun output after proceeds _ => ?_
      split
      · exact (stops_requestTicket _).bind fun placeholder last further _ =>
          stops_resolve ((literal.proceeds proceeds).proceeds further) placeholder
      · exact stops_pure (stays _)

/-- A block is made and bound anew without any search, so the only fault is a
slot that is not there. -/
theorem stops_copy (branch : BlockId) (bindings : Bindings) :
    Stops (fun _ => True)
      (fun _ => build (fun arena => arena.cloneBlock branch) >>= fun fresh =>
        build (fun arena => (arena.bindAll fresh bindings).map ((), ·)) >>= fun _ =>
        pure fresh) pass := by
  refine .of_conserves (Pass.conservation_proceeds.make Arena.preserves_cloneBlock
    Arena.Sound.of_cloneBlock fun _ => Pass.conservation_proceeds.pure _) ?_
  rw [bind_run, build]
  cases cloned : pass.arena.cloneBlock branch with
  | error fault => exact Arena.cloneBlock_error cloned ▸ trivial
  | ok made =>
      simp only [bind_run, build]
      cases bound : made.2.bindAll made.1 bindings with
      | error fault => exact Arena.bindAll_error bound ▸ trivial
      | ok final => trivial

section Terms

variable {holds : Pass σ → Prop} {inside : BlockId → Prop}
  (lasting : ∀ {before after}, holds before → before.Proceeds after → holds after)
  (literal : ∀ {pass}, holds pass → pass.Literal)
  (names : ∀ {pass} name, holds pass →
    Stops AllPassive (fun depth => reduceName (reduce depth) name) pass)
    (branches : ∀ {pass branch} cond output, inside branch → holds pass →
    Stops AllPassive (fun depth => reduceOutput (reduce depth) cond branch output) pass)

include lasting branches in
theorem stops_reduceOutputs {branch : BlockId} (cond : Cond)
    (within : inside branch) (outputs : List String) (given : holds pass) :
    Stops (fun _ => True)
      (fun depth => reduceOutputs (reduce depth) cond branch outputs) pass := by
  induction outputs generalizing pass with
  | nil => exact stops_pure trivial
  | cons output rest ih =>
      refine (branches cond output within given).bind fun value middle reached _ => ?_
      exact (ih (lasting given reached)).bind fun others after _ _ => stops_pure trivial

include lasting branches in
theorem stops_residualBranch {branch : BlockId} (cond : Cond)
    (within : inside branch) (given : holds pass) :
    Stops (fun _ => True) (fun depth => residualBranch (reduce depth) cond branch) pass :=
  (stops_reduceOutputs lasting branches cond within _ given).bind
    fun outputs _ _ _ => stops_copy branch outputs

include lasting branches in
theorem stops_closeCond (cond : Cond) (condition : Compound) (output : String)
    (thenBlock : inside cond.thenBlock) (elseBlock : inside cond.elseBlock)
    (given : holds pass) :
    Stops AllPassive (fun depth => closeCond (reduce depth) cond condition output) pass := by
  unfold closeCond
  cases decided : decide? cond condition with
  | some branch =>
      have within : inside branch := by
        unfold decide? at decided
        split at decided
        · exact Option.some.inj decided ▸ elseBlock
        · split at decided
          · exact Option.some.inj decided ▸ thenBlock
          · simp at decided
      exact branches cond output within given
  | none =>
      refine (stops_residualBranch lasting branches cond thenBlock given).bind
        fun _ middle reached _ => ?_
      refine (stops_residualBranch lasting branches cond elseBlock
        (lasting given reached)).bind fun _ _ _ _ => ?_
      exact stops_pure
        fun term among native => by simp [List.mem_singleton.mp among, Cond.toTerm]

include lasting branches in
theorem stops_reduceCond (cond : Cond)
    (condition : ∀ {pass}, holds pass →
      Stops AllPassive (fun depth => reduce depth cond.condition) pass)
    (thenBlock : inside cond.thenBlock)
    (elseBlock : inside cond.elseBlock) (given : holds pass) :
    Stops AllPassive (fun depth => reduceCond (reduce depth) cond) pass := by
  simp only [reduceCond_eq]
  refine (condition given).bind fun reduced middle reached _ => ?_
  refine (stops_require fun _ _ => trivial : Stops (fun _ => True) _ middle).bind
    fun output after further _ => ?_
  exact stops_closeCond lasting branches cond reduced output thenBlock elseBlock
    (lasting (lasting given reached) further)

include lasting literal in
/-- Where no native lambda is left for a task, the parts of an application are kept,
rejected or requested. -/
theorem stops_reduceApply (apply : Apply)
    (task : ∀ {pass}, holds pass →
      Stops AllPassive (fun depth => reduce depth apply.task) pass)
    (bindings : ∀ binding ∈ apply.bindings, ∀ {pass}, holds pass →
      Stops AllPassive (fun depth => reduce depth binding.2) pass)
    (given : holds pass) :
    Stops AllPassive (fun depth => reduceApply (reduce depth) apply) pass := by
  refine (task given).bind fun reduced middle reached passive => ?_
  have arguments : Stops (fun _ => True)
      (fun depth => mapEntries (reduce depth) apply.bindings) middle :=
    stops_mapEntries fun binding among after further =>
      bindings binding among (lasting (lasting given reached) further)
  refine arguments.bind fun bound after further _ => ?_
  refine stops_joinMap fun part among last onward => ?_
  refine stops_reducePart (literal (lasting (lasting (lasting given reached) further) onward))
    fun invocation same => ?_
  have stems : .lambda invocation.lambda ∈ reduced := by
    have stems := Apply.stems_of_mem_expand among
    rw [same] at stems
    exact stems.1
  cases called : invocation.lambda with
  | foreign lambda => exact ⟨lambda, rfl⟩
  | native native => exact absurd (called ▸ rfl) (passive _ stems native)

include lasting literal names branches in
/-- A term comes to an end if names do, and the outputs of the branches that it names. -/
theorem stops_reduceTerm {term : Term} (firstOrder : term.FirstOrder)
    (blocks : ∀ block ∈ term.blocks, inside block) (given : holds pass) :
    Stops AllPassive (fun depth => reduceTerm (reduce depth) term) pass := by
  induction firstOrder generalizing pass with
  | name name => exact names name given
  | str value =>
      exact stops_pure fun term among native => by simp [List.mem_singleton.mp among]
  | ticket placeholder => exact stops_resolve (literal given) placeholder
  | foreign lambda =>
      exact stops_pure fun term among native => by simp [List.mem_singleton.mp among]
  | @apply task bindings channel rest _ _ inTask inBindings =>
      simp only [Term.blocks, List.forall_mem_append] at blocks
      refine stops_reduceApply lasting literal ⟨task, bindings, channel, rest⟩
        (fun given => ?_) (fun binding among _ given => ?_) given
      · refine stops_reduce fun term among after proceeds =>
          inTask term among (fun block named => ?_) (lasting given proceeds)
        exact blocks.1 block (Term.mem_blocksOfAll.mpr ⟨term, among, named⟩)
      · refine stops_reduce fun term inside after proceeds =>
          inBindings term ⟨binding, among, inside⟩ (fun block named => ?_)
            (lasting given proceeds)
        exact blocks.2 block
          (Term.mem_blocksOfBindings.mpr ⟨term, ⟨binding, among, inside⟩, named⟩)
  | @cond condition prototype channel thenBlock elseBlock _ inCondition =>
      simp only [Term.blocks, List.forall_mem_append, List.forall_mem_cons] at blocks
      refine stops_reduceCond lasting branches ⟨condition, prototype, channel, thenBlock,
        elseBlock⟩ (fun given => ?_) blocks.2.1 blocks.2.2.1 given
      refine stops_reduce fun term among after proceeds =>
        inCondition term among (fun block named => ?_) (lasting given proceeds)
      exact blocks.1 block (Term.mem_blocksOfAll.mpr ⟨term, among, named⟩)

end Terms

end Reduction

end TicketFlow
