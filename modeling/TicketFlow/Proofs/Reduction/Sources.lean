import TicketFlow.Proofs.Evaluation.Store
import TicketFlow.Proofs.Reduction.Requests
import TicketFlow.Proofs.Schedule.Scheduler

namespace TicketFlow

/-! What a source has to keep to while it is asked for tickets and outputs.

A condition on sources is stable if no call takes it away.  A source that is used
by others as well changes between the calls, too: it keeps to the condition if
whatever the others do to it does.
-/

variable {σ : Type}

/-- No call takes the condition away. -/
structure TicketSource.Stable [TicketSource σ] (sound : σ → Prop) : Prop where
  granted : ∀ {source after : σ} {consumer : ConsumerId} {query : QueryId} {apply : Apply}
    {placeholder : Placeholder}, sound source →
    TicketSource.request source consumer query apply = .ok (placeholder, after) → sound after
  read : ∀ {source : σ} {id : TicketId} {channel : Nat}, sound source →
    sound (TicketSource.read source id channel).2

/-- Sources whose outputs are strings, and stay so when they are asked
for tickets and outputs. -/
structure TicketSource.Literal [TicketSource σ] (sound : σ → Prop) : Prop
    extends TicketSource.Stable sound where
  literal :
    ∀ {source : σ} {id : TicketId} {channel : Nat} {value : Compound}, sound source →
    TicketSource.output? source id channel = some value →
    ∀ term ∈ value, ∃ text, term = .str text

/-- Sources whose outputs name no blocks. -/
structure TicketSource.Blockless [TicketSource σ] (sound : σ → Prop) : Prop
    extends TicketSource.Stable sound where
  blockless :
    ∀ {source : σ} {id : TicketId} {channel : Nat} {value : Compound}, sound source →
    TicketSource.output? source id channel = some value → ∀ term ∈ value, term.blocks = []

/-- A source, and what others are going to do to it before each of the next calls. -/
structure Contended (σ : Type) where
  source : σ
  others : List (σ → σ) := []

/-- Lets the others act. -/
def Contended.yield : Contended σ → Contended σ
  | { source, others := [] } => { source }
  | { source, others := act :: rest } => { source := act source, others := rest }

section Sources

variable [TicketSource σ] {sound : σ → Prop}

theorem TicketSource.Literal.blockless (literal : TicketSource.Literal sound) :
    TicketSource.Blockless sound where
  toStable := literal.toStable
  blockless holds found term inside := by
    obtain ⟨text, rfl⟩ := literal.literal holds found term inside
    rfl

theorem TicketSource.Stable.serves (stable : TicketSource.Stable sound)
    {consumer : ConsumerId} {query : QueryId} {before after : σ} (holds : sound before)
    (served : Relation.ReflTransGen (TicketSource.Serves consumer query) before after) :
    sound after := by
  induction served with
  | refl => exact holds
  | tail _ call ih =>
      cases call with
      | grants granted => exact stable.granted ih granted
      | reads => exact stable.read ih

instance : TicketSource (Contended σ) where
  request contended consumer query apply :=
    let now := contended.yield
    (TicketSource.request now.source consumer query apply).map fun granted =>
      (granted.1, { now with source := granted.2 })
  read contended id channel :=
    let now := contended.yield
    let (output, source) := TicketSource.read now.source id channel
    (output, { now with source })

/-- The source is sound, and whatever the others are going to do leaves it so. -/
def Contended.Sound (sound : σ → Prop) (contended : Contended σ) : Prop :=
  sound contended.source ∧
    ∀ act ∈ contended.others, ∀ source, sound source → sound (act source)

omit [TicketSource σ] in
theorem Contended.Sound.yield {contended : Contended σ} (holds : contended.Sound sound) :
    contended.yield.Sound sound := by
  obtain ⟨source, others⟩ := contended
  cases others with
  | nil => exact holds
  | cons act rest =>
      obtain ⟨here, keeps⟩ := holds
      exact ⟨keeps act List.mem_cons_self source here,
        fun other among => keeps other (List.mem_cons_of_mem act among)⟩

/-- What others do to a source in the meantime makes no difference to such a condition. -/
theorem TicketSource.Literal.contended (literal : TicketSource.Literal sound) :
    TicketSource.Literal (Contended.Sound sound) where
  granted {contended after consumer query apply placeholder} holds granted := by
    have now := holds.yield
    cases asked : TicketSource.request contended.yield.source consumer query apply with
    | error error => simp [TicketSource.request, asked, Except.map] at granted
    | ok result =>
        simp only [TicketSource.request, asked, Except.map, Except.ok.injEq,
          Prod.mk.injEq] at granted
        obtain ⟨rfl, rfl⟩ := granted
        exact ⟨literal.granted now.1 asked, now.2⟩
  read holds := ⟨literal.read holds.yield.1, holds.yield.2⟩
  literal holds found := literal.literal holds.yield.1 found

end Sources

namespace Scheduler

variable {scheduler : Scheduler} {good : Term → Prop}

/-- All terms of the outputs that are stored are good. -/
def Stores (good : Term → Prop) (scheduler : Scheduler) : Prop :=
  ∀ ⦃id outputs⦄, scheduler.table.results.get? id = some outputs →
    ∀ value ∈ outputs, ∀ term ∈ value, good term

/-- No request stores anything. -/
theorem stable_stores (good : Term → Prop) : TicketSource.Stable (Stores good) where
  granted {_ _ consumer query _ _} stores granted := by
    obtain ⟨lambda, ticket, granted⟩ := granted_of_request granted
    intro id outputs stored
    rw [granted.table, TicketTable.results_request] at stored
    exact stores stored
  read stores := stores

theorem Stores.output (stores : scheduler.Stores good) {id : TicketId} {channel : Nat}
    {value : Compound} (known : TicketSource.output? scheduler id channel = some value) :
    ∀ term ∈ value, good term := by
  cases channel with
  | zero => exact nomatch known
  | succ index =>
      obtain ⟨outputs, stored, found⟩ := Option.bind_eq_some_iff.mp known
      exact stores stored value (List.mem_of_getElem? found)

/-- A scheduler whose outputs name no blocks is such a source. -/
theorem blockless : TicketSource.Blockless (Stores fun term => term.blocks = []) where
  toStable := stable_stores _
  blockless stores known := stores.output known

end Scheduler

namespace Store

/-- A store has strings only. -/
theorem literal : TicketSource.Literal fun _ : Store => True where
  granted _ _ := trivial
  read _ := trivial
  literal {source _ _ _} _ known := source.literal_oracle known

/-- A request leaves a store as it is. -/
theorem eq_of_request {store after : Store} {consumer : ConsumerId} {query : QueryId}
    {apply : Apply} {placeholder : Placeholder}
    (granted : TicketSource.request store consumer query apply = .ok (placeholder, after)) :
    after = store := by
  cases task : apply.foreignTask with
  | error fault => simp [TicketSource.request, task, Except.map] at granted
  | ok lambda =>
      simp only [TicketSource.request, task, Except.map, Except.ok.injEq,
        Prod.mk.injEq] at granted
      exact granted.2.symm

/-- A pass leaves a store as it is. -/
theorem source_reduce (context : Context) (depth : Nat)
    (store : Store) (consumer : ConsumerId) (query : QueryId) :
    (context.reduce depth store consumer query).source = store := by
  have still : TicketSource.Stable fun source : Store => source = store :=
    ⟨fun same granted => (eq_of_request granted).trans same, fun same => same⟩
  exact still.serves rfl (context.serves_reduce depth store consumer query)

/-- Tickets are finished before the source is called for the first time. -/
def finishing : Contended Store where
  source := shared none
  others := [fun _ => shared (some ["b"])]

theorem sound_finishing : finishing.Sound fun _ => True :=
  ⟨trivial, fun _ _ _ _ => trivial⟩

end Store

end TicketFlow
