import TicketFlow.Proofs.Evaluation.Store
import TicketFlow.Proofs.Reduction.Traversal

namespace TicketFlow

/-! What a pass leaves as it was.

A pass makes blocks and binds names in those that it made.  Whatever is reduced,
and whether it succeeds or not, every block that was in use keeps its parent and
its bindings, and the scopes and the names being resolved are those of before.
So a rejected pass cannot be seen from the root and the targets.
-/

variable {σ : Type}

/-- Every block in use, the scopes, and the names being resolved are as they were. -/
structure Pass.Framed (before after : Pass σ) : Prop where
  arena : before.arena.Preserves after.arena
  root : after.root = before.root
  scopes : after.scopes = before.scopes
  resolving : after.resolving = before.resolving

theorem Pass.conservation_framed [TicketSource σ] :
    Conservation (Framed : Pass σ → Pass σ → Prop) where
  refl pass := ⟨.refl pass.arena, rfl, rfl, rfl⟩
  trans first second :=
    ⟨first.arena.trans second.arena, second.root.trans first.root,
      second.scopes.trans first.scopes, second.resolving.trans first.resolving⟩
  made preserves _ := ⟨preserves, rfl, rfl, rfl⟩
  asked {pass _ _ _} _ := ⟨.refl pass.arena, rfl, rfl, rfl⟩
  read pass _ _ := ⟨.refl pass.arena, rfl, rfl, rfl⟩
  entered framed :=
    { framed with
      scopes := by simp only [PassM.leave, framed.scopes, PassM.enter, List.tail_cons] }
  resolved unmarked framed := by
    refine { framed with resolving := ?_ }
    -- only the mark that was set is removed, since it did not stand there before
    simp only [framed.resolving, List.filter_cons, bne_self_eq_false,
      Bool.false_eq_true, if_false]
    exact List.filter_eq_self.mpr
      fun other among => bne_iff_ne.mpr fun same => unmarked (same ▸ among)

namespace Context

/-- The same targets, and from them and the root the same blocks with the same
parents and bindings. -/
structure Undisturbed (before after : Context) : Prop where
  root : after.root = before.root
  targets : after.targets = before.targets
  blocks : ∀ {block}, before.Reaches block →
    ∃ found, before.arena.Live block found ∧ after.arena.Live block found
  reaches : ∀ {block}, after.Reaches block ↔ before.Reaches block

variable {context : Context}

/-- Nobody who comes from the root or a target sees the blocks made since. -/
theorem Intact.undisturbed (intact : context.Intact)
    {arena : Arena} (preserves : context.arena.Preserves arena) :
    context.Undisturbed { context with arena } where
  root := rfl
  targets := rfl
  blocks {block} reaches := by
    obtain ⟨found, live⟩ := intact block reaches
    exact ⟨found, live, preserves.live live⟩
  reaches {block} := by
    constructor
    · intro ⟨entry, listed, further⟩
      exact ⟨entry, listed, preserves.reaches
        (fun other reached => intact other ⟨entry, listed, reached⟩) further⟩
    · intro ⟨entry, listed, further⟩
      refine ⟨entry, listed, ?_⟩
      induction further with
      | refl => exact .refl
      | tail before refers ih =>
          obtain ⟨found, live⟩ := intact _ ⟨entry, listed, before⟩
          rw [live.references, ← (preserves.live live).references] at refers
          exact ih.tail refers

end Context

/-- Every reduction writes to fresh blocks only, and a rejected pass over a context
without dangling block ids is invisible. -/
theorem Pass.framed_reduce [TicketSource σ] :
    (∀ (depth : Nat) (terms : Compound)
      (pass : Pass σ), pass.Framed (Reduction.reduce depth terms pass).2) ∧
      ∀ {context : Context} {depth : Nat} {source : σ} {consumer : ConsumerId}
      {query : QueryId} {reason : Halt},
        context.Intact →
          (context.reduce depth source consumer query).outcome = .error reason →
          context.Undisturbed (context.reduce depth source consumer query).context := by
  refine ⟨fun depth terms => conservation_framed.reduce depth terms,
    fun {context depth source consumer query _} intact failed => ?_⟩
  have framed := conservation_framed.reduceTargets depth context.targets
    (Pass.start consumer query source context.arena context.root)
  unfold Context.reduce at failed ⊢
  split at failed
  · simp at failed
  next ended =>
    rw [ended] at framed
    exact intact.undisturbed framed.arena

/-- The first target calls a lambda, which makes a block; the second is rejected. -/
def Context.calledThenRejected : Context where
  arena := { blocks := #[{}, { parent := some ⟨0⟩, bindings := [("y", [.name "x"])] }] }
  root := ⟨0⟩
  targets := [
    [.apply [.lambda (.native ⟨{ params := [.plain "x"], outputs := ["y"] }, ⟨1⟩⟩)]
      [("x", [.str "a"])] 1 false], [.curry none []]]

theorem Pass.framed_calledThenRejected :
    ((Context.calledThenRejected.reduce 5 (Store.shared none) ⟨1⟩ ⟨1⟩).outcome =
        .error (.rejected (.curryWithoutTask ⟨none, []⟩)) ∧
      (Context.calledThenRejected.reduce 5 (Store.shared none) ⟨1⟩ ⟨1⟩).context.arena.slots =
        3) ∧ Context.calledThenRejected.Undisturbed
        (Context.calledThenRejected.reduce 5 (Store.shared none) ⟨1⟩ ⟨1⟩).context := by
  have closed : Context.calledThenRejected.Closed :=
    Context.closed_of_whole rfl (by decide) (by decide) (by decide)
  exact ⟨⟨rfl, rfl⟩, framed_reduce.2 closed.intact rfl⟩

end TicketFlow
