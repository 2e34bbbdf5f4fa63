import TicketFlow.Arena.Basic
import TicketFlow.Reduction.Error
import TicketFlow.TicketSource

namespace TicketFlow

/-! The state of a reduction pass, and actions on it.

An action that ends early keeps the state it had reached: tickets requested and
blocks made before that stay.
-/

inductive Halt where
  | rejected (error : ReduceError)
  | fault (fault : Arena.Fault)
  /-- Terms nest more deeply, or unfold for longer, than the pass was given depth for. -/
  | exhausted
deriving Repr

structure Pass (σ : Type) where
  consumer : ConsumerId
  query : QueryId
  source : σ
  arena : Arena
  /-- The scope that names are looked up in when no other was entered. -/
  root : BlockId
  /-- The scopes entered and not left yet, innermost first. -/
  scopes : List BlockId := []
  /-- The names being resolved, with the scopes they were looked up in. -/
  resolving : List (BlockId × String) := []

def Pass.scope {σ : Type} (pass : Pass σ) : BlockId :=
  pass.scopes.head?.getD pass.root

/-- An action of a pass: a value, or the reason for there being none,
and the state after it. -/
def PassM (σ α : Type) : Type :=
  Pass σ → Except Halt α × Pass σ

namespace PassM

variable {σ α β : Type}

def halt (reason : Halt) : PassM σ α :=
  fun pass => (.error reason, pass)

def reject (error : ReduceError) : PassM σ α :=
  halt (.rejected error)

protected def pure (value : α) : PassM σ α :=
  fun pass => (.ok value, pass)

protected def bind (first : PassM σ α) (next : α → PassM σ β) : PassM σ β :=
  fun pass =>
    match first pass with
    | (.ok value, after) => next value after
    | (.error reason, after) => (.error reason, after)

instance : Monad (PassM σ) where
  pure := PassM.pure
  bind := PassM.bind

@[simp] theorem pure_run (value : α) (pass : Pass σ) :
    (pure value : PassM σ α) pass = (.ok value, pass) := rfl

theorem bind_run (first : PassM σ α) (next : α → PassM σ β) (pass : Pass σ) :
    (first >>= next) pass =
      match first pass with
      | (.ok value, after) => next value after
      | (.error reason, after) => (.error reason, after) := rfl

/-- A sequence gives a value exactly if both of its actions do. -/
theorem bind_ok_iff {first : PassM σ α} {next : α → PassM σ β} {pass final : Pass σ}
    {result : β} : (first >>= next) pass = (.ok result, final) ↔
      ∃ value after, first pass = (.ok value, after) ∧
        next value after = (.ok result, final) := by
  rw [bind_run]
  constructor
  · intro ran
    cases outcome : first pass with
    | mk given after =>
        cases given with
        | ok value => exact ⟨value, after, rfl, by simpa only [outcome] using ran⟩
        | error reason => simp [outcome] at ran
  · rintro ⟨value, after, ranFirst, ranNext⟩
    simp only [ranFirst, ranNext]

/-- A sequence ends early exactly if one of its actions does. -/
theorem bind_error_iff {first : PassM σ α} {next : α → PassM σ β} {pass final : Pass σ}
    {reason : Halt} :
    (first >>= next) pass = (.error reason, final) ↔
      first pass = (.error reason, final) ∨
        ∃ value after, first pass = (.ok value, after) ∧
          next value after = (.error reason, final) := by
  rw [bind_run]
  constructor
  · intro ran
    cases outcome : first pass with
    | mk given after =>
        cases given with
        | ok value => exact .inr ⟨value, after, rfl, by simpa only [outcome] using ran⟩
        | error found =>
            simp only [outcome, Prod.mk.injEq, Except.error.injEq] at ran
            exact .inl (by rw [ran.1, ran.2])
  · rintro (ended | ⟨value, after, ranFirst, ranNext⟩)
    · simp only [ended]
    · simp only [ranFirst, ranNext]

instance : LawfulMonad (PassM σ) :=
  LawfulMonad.mk' _
    (fun action => by
      funext pass
      simp only [Functor.map, PassM.bind]
      cases action pass with
      | mk given after => cases given <;> rfl)
    (fun _ _ => rfl)
    (fun first _ _ => by
      funext pass
      simp only [Bind.bind, PassM.bind]
      cases first pass with
      | mk given after => cases given <;> rfl)

def view (f : Pass σ → α) : PassM σ α :=
  fun pass => (.ok (f pass), pass)

def inspect (f : Arena → Except Arena.Fault α) : PassM σ α :=
  fun pass =>
    match f pass.arena with
    | .ok value => (.ok value, pass)
    | .error fault => (.error (.fault fault), pass)

def build (f : Arena → Except Arena.Fault (α × Arena)) : PassM σ α :=
  fun pass =>
    match f pass.arena with
    | .ok (value, arena) => (.ok value, { pass with arena })
    | .error fault => (.error (.fault fault), pass)

/-- A call of the source, which may leave it in a new state. -/
def ask (call : σ → α × σ) : PassM σ α :=
  fun { consumer, query, source, arena, root, scopes, resolving } =>
    let (value, source) := call source
    (.ok value, { consumer, query, source, arena, root, scopes, resolving })

@[simp] theorem ask_run (call : σ → α × σ) (pass : Pass σ) :
    ask call pass =
      (.ok (call pass.source).1, { pass with source := (call pass.source).2 }) := rfl

def enter (scope : BlockId) (pass : Pass σ) : Pass σ :=
  { pass with scopes := scope :: pass.scopes }

def leave (pass : Pass σ) : Pass σ :=
  { pass with scopes := pass.scopes.tail }

/-- Acts inside a scope, which is left again whatever comes of it. -/
def inScope (scope : BlockId) (action : PassM σ α) : PassM σ α :=
  fun pass =>
    let (outcome, after) := action (enter scope pass)
    (outcome, leave after)

/-- Acts while a name counts as being resolved; afterwards it no longer does,
whatever comes of it. -/
def whileResolving (key : BlockId × String) (action : PassM σ α) : PassM σ α :=
  fun pass =>
    let (outcome, after) := action { pass with resolving := key :: pass.resolving }
    (outcome,
      { after with resolving := after.resolving.filter fun other => other != key })

def joinMap (f : β → PassM σ Compound) : List β → PassM σ Compound
  | [] => pure []
  | value :: rest => do
      let head ← f value
      let tail ← joinMap f rest
      pure (head ++ tail)

/-- One after the other, under the keys they stand under. -/
def mapEntries {κ : Type} (f : β → PassM σ α) : List (κ × β) → PassM σ (List (κ × α))
  | [] => pure []
  | (key, value) :: rest => do
      let head ← f value
      let tail ← mapEntries f rest
      pure ((key, head) :: tail)

end PassM

end TicketFlow
