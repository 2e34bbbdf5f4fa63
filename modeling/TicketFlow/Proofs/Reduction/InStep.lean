import Mathlib.Data.List.Forall2
import Mathlib.Order.Basic
import TicketFlow.Reduction.Pass

namespace TicketFlow

/-! Passes in paired scopes.

Two passes that do the same in different arenas enter and leave scopes together,
and mark the same names in them.  As long as no scope is paired twice, a name is
marked on both sides or on neither.
-/

variable {σ τ : Type} {pairs wider : BlockId → BlockId → Prop} {slot other : BlockId}

/-- No slot is paired twice. -/
structure PairedOnce (pairs : BlockId → BlockId → Prop) : Prop where
  functional : ∀ {slot left right}, pairs slot left → pairs slot right → left = right
  injective : ∀ {slot left right}, pairs left slot → pairs right slot → left = right

namespace Pass

/-- The passes are in paired scopes, and resolve the same names in paired scopes. -/
structure InStep (pairs : BlockId → BlockId → Prop) (left : Pass σ)
    (right : Pass τ) : Prop where
  root : pairs left.root right.root
  scopes : List.Forall₂ pairs left.scopes right.scopes
  resolving :
    List.Forall₂ (fun key twin => pairs key.1 twin.1 ∧ key.2 = twin.2)
      left.resolving right.resolving

variable {left : Pass σ} {right : Pass τ}

theorem InStep.mono (inStep : left.InStep pairs right) (within : pairs ≤ wider) :
    left.InStep wider right where
  root := within _ _ inStep.root
  scopes := inStep.scopes.imp within
  resolving := inStep.resolving.imp fun _ _ keys => ⟨within _ _ keys.1, keys.2⟩

theorem InStep.scope (inStep : left.InStep pairs right) :
    pairs left.scope right.scope := by
  have scopes := inStep.scopes
  unfold Pass.scope
  generalize left.scopes = here, right.scopes = there at scopes
  cases scopes with
  | nil => exact inStep.root
  | cons paired _ => exact paired

theorem InStep.enter (inStep : left.InStep pairs right) (paired : pairs slot other) :
    (PassM.enter slot left).InStep pairs (PassM.enter other right) :=
  { inStep with scopes := .cons paired inStep.scopes }

theorem InStep.leave (inStep : left.InStep pairs right) :
    (PassM.leave left).InStep pairs (PassM.leave right) := by
  have scopes := inStep.scopes
  refine { inStep with scopes := ?_ }
  unfold PassM.leave
  generalize left.scopes = here, right.scopes = there at scopes
  cases scopes with
  | nil => exact .nil
  | cons _ rest => exact rest

theorem InStep.mark (inStep : left.InStep pairs right)
    (paired : pairs slot other) (name : String) :
    InStep pairs { left with resolving := (slot, name) :: left.resolving }
      { right with resolving := (other, name) :: right.resolving } :=
  { inStep with resolving := .cons ⟨paired, rfl⟩ inStep.resolving }

end Pass

/-- Under the same name, paired scopes are the same on one side if they
are on the other one. -/
theorem PairedOnce.key_eq_iff (once : PairedOnce pairs) (name : String)
    (paired : pairs slot other) {key twin : BlockId × String}
    (keys : pairs key.1 twin.1 ∧ key.2 = twin.2) :
    key = (slot, name) ↔ twin = (other, name) := by
  obtain ⟨scope, bound⟩ := key
  obtain ⟨scopeTwin, boundTwin⟩ := twin
  obtain ⟨scopes, rfl⟩ := keys
  simp only [Prod.mk.injEq, and_congr_left_iff]
  intro _
  exact ⟨fun same => once.functional (same ▸ scopes) paired,
    fun same => once.injective (same ▸ scopes) paired⟩

namespace Pass

variable {left : Pass σ} {right : Pass τ}

/-- A name is being resolved in paired scopes on both sides or on neither. -/
theorem InStep.contains_resolving (inStep : left.InStep pairs right)
    (once : PairedOnce pairs) (paired : pairs slot other) (name : String) :
    right.resolving.contains (other, name) = left.resolving.contains (slot, name) := by
  have resolving := inStep.resolving
  generalize left.resolving = here, right.resolving = there at resolving
  induction resolving with
  | nil => rfl
  | cons keys _ ih =>
      have same := once.key_eq_iff name paired keys
      rw [List.contains_cons, List.contains_cons, ih, Bool.eq_iff_iff]
      simp only [Bool.or_eq_true, beq_iff_eq, eq_comm (a := (other, name)),
        eq_comm (a := (slot, name)), same]

theorem InStep.unmark (inStep : left.InStep pairs right) (once : PairedOnce pairs)
    (paired : pairs slot other) (name : String) :
    InStep pairs
      { left with resolving := left.resolving.filter fun key => key != (slot, name) }
      { right with resolving := right.resolving.filter fun key => key != (other, name) } := by
  refine
    { inStep with resolving := List.rel_filter (fun key twin keys => ?_) inStep.resolving }
  simp [once.key_eq_iff name paired keys]

end Pass

end TicketFlow
