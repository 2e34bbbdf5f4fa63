import TicketFlow.Reduction.Reduce

namespace TicketFlow

/-! More depth changes nothing that has come to an end.

The depth given to a reduction only bounds how far it unfolds.  Where it does not
run out, every larger depth leads to the same outcome and the same state.
-/

namespace PassM

variable {σ α β : Type} {action longer : PassM σ α} {pass : Pass σ}

/-- From this state the action does not run out of depth. -/
def Ends (action : PassM σ α) (pass : Pass σ) : Prop :=
  (action pass).1 ≠ .error .exhausted

/-- The longer action comes to the same wherever this one does not run out of depth. -/
def Outlasts (longer action : PassM σ α) : Prop :=
  ∀ pass, action.Ends pass → longer pass = action pass

theorem Outlasts.refl (action : PassM σ α) : action.Outlasts action :=
  fun _ _ => rfl

theorem Outlasts.bind {next later : α → PassM σ β} (first : longer.Outlasts action)
    (second : ∀ value, (later value).Outlasts (next value)) :
    (longer >>= later).Outlasts (action >>= next) := by
  intro pass ends
  rw [Ends, bind_run] at ends
  cases ran : action pass with
  | mk outcome after =>
      cases outcome with
      | error reason =>
          -- had the first action run out, the whole would have
          have same := first pass fun short => ends (by simpa [ran] using short)
          rw [bind_run, bind_run, same, ran]
      | ok value =>
          simp only [ran] at ends
          have same := first pass (by simp [Ends, ran])
          rw [bind_run, bind_run, same, ran]
          exact second value after ends

theorem Outlasts.inScope (inside : longer.Outlasts action) (scope : BlockId) :
    (PassM.inScope scope longer).Outlasts (PassM.inScope scope action) := by
  intro pass ends
  have same : longer (enter scope pass) = action (enter scope pass) := inside _ ends
  simp only [PassM.inScope, same]

theorem Outlasts.whileResolving
    (inside : longer.Outlasts action) (key : BlockId × String) :
    (PassM.whileResolving key longer).Outlasts (PassM.whileResolving key action) := by
  intro pass ends
  have same := inside { pass with resolving := key :: pass.resolving } ends
  simp only [PassM.whileResolving, same]

theorem Outlasts.joinMap {f g : β → PassM σ Compound}
    (each : ∀ value, (g value).Outlasts (f value)) (values : List β) :
    (PassM.joinMap g values).Outlasts (PassM.joinMap f values) := by
  induction values with
  | nil => exact .refl _
  | cons value rest ih => exact (each value).bind fun _ => ih.bind fun _ => .refl _

theorem Outlasts.mapEntries {κ : Type} {f g : β → PassM σ α}
    (each : ∀ value, (g value).Outlasts (f value)) (entries : List (κ × β)) :
    (PassM.mapEntries g entries).Outlasts (PassM.mapEntries f entries) := by
  induction entries with
  | nil => exact .refl _
  | cons entry rest ih => exact (each entry.2).bind fun _ => ih.bind fun _ => .refl _

end PassM

namespace Reduction

open PassM

variable {σ : Type}

section Cases

variable {recurse longer : Compound → PassM σ Compound}
  (each : ∀ terms, (longer terms).Outlasts (recurse terms))
include each

theorem outlasts_reduceName (name : String) :
    (reduceName longer name).Outlasts (reduceName recurse name) := by
  refine .bind (.refl _) fun scope => .bind (.refl _) fun bound => ?_
  cases bound with
  | none => exact .refl _
  | some value =>
      refine .bind (.refl _) fun marked => ?_
      cases marked with
      | true => exact .refl _
      | false => exact (each value).whileResolving _

theorem outlasts_reduceOutput (cond : Cond) (branch : BlockId) (output : String) :
    (reduceOutput longer cond branch output).Outlasts
      (reduceOutput recurse cond branch output) :=
  .bind (.refl _) fun _ => .bind (.refl _) fun value => (each value).inScope branch

theorem outlasts_reduceOutputs (cond : Cond) (branch : BlockId) (outputs : List String) :
    (reduceOutputs longer cond branch outputs).Outlasts
      (reduceOutputs recurse cond branch outputs) := by
  induction outputs with
  | nil => exact .refl _
  | cons output rest ih =>
      exact (outlasts_reduceOutput each cond branch output).bind
        fun _ => ih.bind fun _ => .refl _

theorem outlasts_residualBranch (cond : Cond) (branch : BlockId) :
    (residualBranch longer cond branch).Outlasts (residualBranch recurse cond branch) :=
  (outlasts_reduceOutputs each cond branch _).bind fun _ => .refl _

theorem outlasts_reduceCond (cond : Cond) :
    (reduceCond longer cond).Outlasts (reduceCond recurse cond) := by
  refine (each _).bind fun condition => .bind (.refl _) fun output => ?_
  cases decide? cond condition with
  | some branch => exact outlasts_reduceOutput each cond branch output
  | none =>
      exact (outlasts_residualBranch each cond _).bind fun _ =>
        (outlasts_residualBranch each cond _).bind fun _ => .refl _

theorem outlasts_reduceCurry (curry : Curry) :
    (reduceCurry longer curry).Outlasts (reduceCurry recurse curry) := by
  unfold reduceCurry
  split
  · exact .refl _
  · exact .refl _
  · exact (each _).bind fun _ => (Outlasts.mapEntries each _).bind fun _ => .refl _
  · exact .refl _

variable [TicketSource σ]

theorem outlasts_reduceInvocation (invocation : Invocation) :
    (reduceInvocation longer invocation).Outlasts (reduceInvocation recurse invocation) := by
  unfold reduceInvocation
  refine .bind (.refl _) fun output => ?_
  cases invocation.lambda with
  | foreign lambda => exact .refl _
  | native native =>
      refine .bind (.refl _) fun scope => .bind (.refl _) fun _ => Outlasts.inScope ?_ scope
      exact .bind (.refl _) fun _ => .bind (.refl _) each

theorem outlasts_reducePart (part : Part) :
    (reducePart longer part).Outlasts (reducePart recurse part) := by
  cases part with
  | invoke invocation => exact outlasts_reduceInvocation each invocation
  | _ => exact .refl _

theorem outlasts_reduceApply (apply : Apply) :
    (reduceApply longer apply).Outlasts (reduceApply recurse apply) :=
  (each _).bind fun _ =>
    (Outlasts.mapEntries each _).bind fun _ => Outlasts.joinMap (outlasts_reducePart each) _

theorem outlasts_reduceTerm (term : Term) :
    (reduceTerm longer term).Outlasts (reduceTerm recurse term) := by
  cases term with
  | name name => exact outlasts_reduceName each name
  | cond condition prototype channel thenBlock elseBlock =>
      exact outlasts_reduceCond each _
  | apply task bindings channel rest => exact outlasts_reduceApply each _
  | curry task bindings => exact outlasts_reduceCurry each _
  | _ => exact .refl _

end Cases

variable [TicketSource σ] {depth more : Nat}

/-- With more depth a reduction that has come to an end comes to the same. -/
theorem outlasts_reduce (within : depth ≤ more) (terms : Compound) :
    (reduce more terms : PassM σ Compound).Outlasts (reduce depth terms) := by
  induction depth generalizing more terms with
  | zero => exact fun _ ends => absurd rfl ends
  | succ depth ih =>
      obtain ⟨more, rfl⟩ := Nat.exists_eq_add_of_le' within
      exact Outlasts.joinMap
        (outlasts_reduceTerm fun terms => ih (Nat.le_of_add_le_add_right within) terms) terms

end Reduction

end TicketFlow
