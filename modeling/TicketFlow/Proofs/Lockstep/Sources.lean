import TicketFlow.Proofs.Reduction.Confinement
import TicketFlow.Proofs.Schedule.Scheduler

namespace TicketFlow

/-! Sources that hold to the contract of a backend.

Such a source grants nothing but invocations of foreign lambdas with strings, and
its outputs are strings.  It still does when it keeps a journal of what it grants,
which shows in what order the tickets were asked for.
-/

variable {σ : Type}

/-- Sources that grant nothing but what fulfils the contract of a backend. -/
structure TicketSource.Strict [TicketSource σ] (sound : σ → Prop) :
    Prop extends TicketSource.Literal sound where
  contract :
    ∀ {source after : σ} {consumer : ConsumerId} {query : QueryId}
    {apply : Apply} {placeholder : Placeholder}, sound source →
    TicketSource.request source consumer query apply = .ok (placeholder, after) →
    ∃ lambda, apply.foreignTask = .ok lambda

theorem Store.strict : TicketSource.Strict fun _ : Store => True where
  toLiteral := Store.literal
  contract {source _ _ _ apply _} _ granted := by
    cases task : apply.foreignTask with
    | ok lambda => exact ⟨lambda, rfl⟩
    | error error => simp [TicketSource.request, task, Except.map] at granted

/-- All outputs that are stored are strings. -/
def Scheduler.StoresStrings (scheduler : Scheduler) : Prop :=
  scheduler.Stores fun term => ∃ text, term = .str text

theorem Scheduler.strict : TicketSource.Strict Scheduler.StoresStrings where
  toStable := Scheduler.stable_stores _
  literal stores known := stores.output known
  contract _ granted := by
    obtain ⟨lambda, ticket, granted⟩ := granted_of_request granted
    exact ⟨lambda, granted.task⟩

/-- A source with a journal of the requests that it has granted. -/
structure Journal (σ : Type) where
  source : σ
  requests : List Apply := []

variable [TicketSource σ] {sound : σ → Prop}

instance : TicketSource (Journal σ) where
  request journal consumer query apply :=
    (TicketSource.request journal.source consumer query apply).map fun granted =>
      (granted.1, { source := granted.2, requests := journal.requests ++ [apply] })
  read journal id channel :=
    let (output, source) := TicketSource.read journal.source id channel
    (output, { journal with source })

theorem Journal.granted {journal after : Journal σ} {consumer : ConsumerId}
    {query : QueryId} {apply : Apply} {placeholder : Placeholder}
    (granted : TicketSource.request journal consumer query apply = .ok (placeholder, after)) :
    TicketSource.request journal.source consumer query apply =
      .ok (placeholder, after.source) := by
  cases asked : TicketSource.request journal.source consumer query apply with
  | error error => simp [TicketSource.request, asked, Except.map] at granted
  | ok result =>
      simp only [TicketSource.request, asked, Except.map, Except.ok.injEq,
        Prod.mk.injEq] at granted
      obtain ⟨rfl, rfl⟩ := granted
      rfl

/-- Keeping a journal changes nothing else. -/
theorem TicketSource.Strict.journal (strict : TicketSource.Strict sound) :
    TicketSource.Strict fun journal : Journal σ => sound journal.source where
  granted fine granted := strict.granted fine (Journal.granted granted)
  read fine := strict.read fine
  literal fine known := strict.literal fine known
  contract fine granted := strict.contract fine (Journal.granted granted)

end TicketFlow
