import TicketFlow.Proofs.Arena.Reachable
import TicketFlow.Reduction.Context

namespace TicketFlow

/-! What a pass of reduction keeps, whatever is reduced and whatever comes of it.

A pass does five things to its state: it makes blocks in slots that are not in
use, asks for tickets and for their outputs, enters scopes that it leaves again,
and marks names that it unmarks again.  A relation that survives these five holds
between the states before and after every reduction.
-/

variable {σ : Type}

/-- A preorder on passes that survives what a reduction does to the state. -/
structure Pass.Conservation [TicketSource σ] (keeps : Pass σ → Pass σ → Prop) : Prop where
  refl : ∀ pass, keeps pass pass
  trans :
    ∀ {first second third}, keeps first second → keeps second third → keeps first third
  made :
    ∀ {pass : Pass σ} {arena : Arena}, pass.arena.Preserves arena →
    (pass.arena.Sound → arena.Sound) → keeps pass { pass with arena }
  asked :
    ∀ {pass : Pass σ} {apply : Apply} {placeholder : Placeholder}
    {source : σ}, TicketSource.request pass.source pass.consumer pass.query apply =
    .ok (placeholder, source) → keeps pass { pass with source }
  read : ∀ (pass : Pass σ) (id : TicketId) (channel : Nat),
    keeps pass { pass with source := (TicketSource.read pass.source id channel).2 }
  entered :
    ∀ {pass after : Pass σ} {scope : BlockId}, keeps (PassM.enter scope pass) after →
    keeps pass (PassM.leave after)
  resolved : ∀ {pass after : Pass σ} {key : BlockId × String}, key ∉ pass.resolving →
    keeps { pass with resolving := key :: pass.resolving } after →
    keeps pass { after with resolving := after.resolving.filter fun other => other != key }

/-- The states before and after the action are related, wherever it starts and
whatever comes of it. -/
def PassM.Conserves {α : Type} (keeps : Pass σ → Pass σ → Prop)
    (action : PassM σ α) : Prop :=
  ∀ pass, keeps pass (action pass).2

namespace Reduction

/-- A conditional that takes no branch, with the outputs of both branches reduced. -/
def residualCond (recurse : Compound → PassM σ Compound) (cond : Cond)
    (condition : Compound) : PassM σ Compound := do
  let thenBlock ← residualBranch recurse cond cond.thenBlock
  let elseBlock ← residualBranch recurse cond cond.elseBlock
  pure [Cond.toTerm { cond with condition, thenBlock, elseBlock }]

/-- What is left to do once the condition is reduced. -/
def closeCond (recurse : Compound → PassM σ Compound) (cond : Cond) (condition : Compound)
    (output : String) : PassM σ Compound :=
  match decide? cond condition with
  | some branch => reduceOutput recurse cond branch output
  | none => residualCond recurse cond condition

theorem reduceCond_eq (recurse : Compound → PassM σ Compound) (cond : Cond) :
    reduceCond recurse cond =
      recurse cond.condition >>= fun condition =>
        require (.notBound cond.toTerm ("output channel " ++ toString cond.channel))
          (cond.prototype.output? cond.channel) >>= closeCond recurse cond condition :=
  rfl

/-- A curried lambda is the lambda over a copy of its body. -/
theorem bindParams_eq (native : NativeLambda) (bindings : Bindings) :
    (bindParams native bindings : PassM σ NativeLambda) =
      (PassM.build (fun arena => arena.cloneBlock native.body) >>= fun fresh =>
      PassM.build (fun arena => (arena.bindAll fresh bindings).map ((), ·)) >>=
        fun _ => pure fresh) >>= fun body => pure
        { prototype := bindings.keys.foldl Prototype.erase native.prototype, body } := by
  simp only [bindParams, bind_assoc, pure_bind]

end Reduction

/-- Making a block and binding arguments in it. -/
theorem PassM.build_bound {pass : Pass σ}
    {make : Arena → Except Arena.Fault (BlockId × Arena)} {bindings : Bindings}
    {fresh : BlockId} {after final : Arena} (made : make pass.arena = .ok (fresh, after))
    (bound : after.bindAll fresh bindings = .ok final) :
    (build make >>= fun fresh =>
      build (fun arena => (arena.bindAll fresh bindings).map ((), ·)) >>= fun _ =>
      pure fresh) pass = (.ok fresh, { pass with arena := final }) := by
  have first : build make pass = (.ok fresh, { pass with arena := after }) := by
    simp [build, made]
  have second : build (fun arena => (arena.bindAll fresh bindings).map ((), ·))
      { pass with arena := after } = (.ok (), { pass with arena := final }) := by
    simp [build, bound, Except.map]
  simp only [bind_run, first, second, pure_run]

variable [TicketSource σ] {keeps : Pass σ → Pass σ → Prop}

namespace Pass.Conservation

open PassM

variable {α β : Type} {action : PassM σ α} (conservation : Conservation keeps)
include conservation

section Rules

theorem pure (value : α) : Conserves keeps (Pure.pure value : PassM σ α) :=
  conservation.refl

theorem halt (reason : Halt) : Conserves keeps (PassM.halt reason : PassM σ α) :=
  conservation.refl

theorem view (f : Pass σ → α) : Conserves keeps (PassM.view f) :=
  conservation.refl

theorem inspect (f : Arena → Except Arena.Fault α) :
    Conserves keeps (PassM.inspect f : PassM σ α) := by
  intro pass
  unfold PassM.inspect
  split <;> exact conservation.refl pass

theorem require (error : ReduceError) (option : Option α) :
    Conserves keeps (Reduction.require error option : PassM σ α) := by
  cases option with
  | none => exact conservation.halt _
  | some value => exact conservation.pure value

theorem bind {next : α → PassM σ β} (first : Conserves keeps action)
    (second : ∀ value, Conserves keeps (next value)) :
    Conserves keeps (action >>= next) := by
  intro pass
  have kept := first pass
  rw [bind_run]
  cases outcome : action pass with
  | mk result after =>
      rw [outcome] at kept
      cases result with
      | error reason => exact kept
      | ok value => exact conservation.trans kept (second value after)

theorem inScope (kept : Conserves keeps action) (scope : BlockId) :
    Conserves keeps (PassM.inScope scope action) :=
  fun _ => conservation.entered (kept _)

theorem joinMap {f : β → PassM σ Compound} {values : List β}
    (each : ∀ value ∈ values, Conserves keeps (f value)) :
    Conserves keeps (PassM.joinMap f values) := by
  induction values with
  | nil => exact conservation.pure _
  | cons value rest ih =>
      rw [List.forall_mem_cons] at each
      unfold PassM.joinMap
      exact conservation.bind each.1
        fun _ => conservation.bind (ih each.2) fun _ => conservation.pure _

theorem mapEntries {κ : Type} {f : β → PassM σ α}
    {entries : List (κ × β)} (each : ∀ value, Conserves keeps (f value)) :
    Conserves keeps (PassM.mapEntries f entries) := by
  induction entries with
  | nil => exact conservation.pure _
  | cons entry rest ih =>
      obtain ⟨key, value⟩ := entry
      unfold PassM.mapEntries
      exact conservation.bind (each value)
        fun _ => conservation.bind ih fun _ => conservation.pure _

/-- A block is made in a slot that is not in use, and bound anew. -/
theorem make {make : Arena → Except Arena.Fault (BlockId × Arena)}
    {bindings : Bindings} {next : BlockId → PassM σ α}
    (unused : ∀ {arena after : Arena} {fresh : BlockId}, make arena = .ok (fresh, after) →
      arena.Preserves after ∧ ∀ found, ¬arena.Live fresh found)
    (sound : ∀ {arena after : Arena}
      {fresh : BlockId}, arena.Sound → make arena = .ok (fresh, after) → after.Sound)
    (continues : ∀ fresh, Conserves keeps (next fresh)) :
    Conserves keeps (build make >>= fun fresh =>
      build (fun arena => (arena.bindAll fresh bindings).map ((), ·)) >>= fun _ =>
      next fresh) := by
  intro pass
  cases made : make pass.arena with
  | error fault =>
      have stays : build make pass = (.error (.fault fault), pass) := by
        simp [build, made]
      rw [bind_run, stays]
      exact conservation.refl pass
  | ok result =>
      obtain ⟨fresh, after⟩ := result
      obtain ⟨preserves, fresh_unused⟩ := unused made
      have first : build make pass = (.ok fresh, { pass with arena := after }) := by
        simp [build, made]
      rw [bind_run, first]
      simp only [bind_run]
      cases bound : after.bindAll fresh bindings with
      | error fault =>
          have second : build (fun arena => (arena.bindAll fresh bindings).map ((), ·))
              { pass with arena := after } =
              (.error (.fault fault), { pass with arena := after }) := by
            simp [build, bound, Except.map]
          rw [second]
          exact conservation.made preserves fun before => sound before made
      | ok final =>
          have second : build (fun arena => (arena.bindAll fresh bindings).map ((), ·))
              { pass with arena := after } = (.ok (), { pass with arena := final }) := by
            simp [build, bound, Except.map]
          rw [second]
          exact conservation.trans
            (conservation.made (preserves.bindAll fresh_unused bound)
              fun before => (sound before made).bindAll bound) (continues fresh _)

theorem requestTicket (apply : Apply) :
    Conserves keeps (Reduction.requestTicket apply : PassM σ Placeholder) := by
  intro pass
  unfold Reduction.requestTicket
  split
  next placeholder source granted => exact conservation.asked granted
  next => exact conservation.refl pass

theorem resolve (placeholder : Placeholder) :
    Conserves keeps (Reduction.resolve placeholder : PassM σ Compound) :=
  conservation.bind (fun pass => conservation.read pass _ _) fun _ => conservation.pure _

end Rules

section Cases

variable {recurse : Compound → PassM σ Compound}
  (each : ∀ terms, Conserves keeps (recurse terms))
include each

theorem reduceName (name : String) :
    Conserves keeps (Reduction.reduceName recurse name) := by
  unfold Reduction.reduceName
  refine conservation.bind (conservation.view _)
    fun scope => conservation.bind (conservation.inspect _) fun bound => ?_
  split
  · exact conservation.pure _
  next value =>
    -- a name is marked only where it is not marked yet
    intro pass
    by_cases marked : pass.resolving.contains (scope, name) = true
    · simp only [bind_run, PassM.view, marked, if_true]
      exact conservation.refl pass
    · simp only [bind_run, PassM.view, marked, Bool.false_eq_true, if_false]
      exact conservation.resolved (by simpa using marked) (each value _)

theorem reduceOutput (cond : Cond) (branch : BlockId) (output : String) :
    Conserves keeps (Reduction.reduceOutput recurse cond branch output) :=
  conservation.bind (conservation.inspect _) fun _ => conservation.bind
    (conservation.require _ _) fun value => conservation.inScope (each value) branch

theorem reduceOutputs (cond : Cond) (branch : BlockId) (outputs : List String) :
    Conserves keeps (Reduction.reduceOutputs recurse cond branch outputs) := by
  induction outputs with
  | nil => exact conservation.pure _
  | cons output rest ih =>
      unfold Reduction.reduceOutputs
      exact conservation.bind (conservation.reduceOutput each cond branch output) fun _ =>
        conservation.bind ih fun _ => conservation.pure _

theorem residualBranch (cond : Cond) (branch : BlockId) :
    Conserves keeps (Reduction.residualBranch recurse cond branch) :=
  conservation.bind (conservation.reduceOutputs each cond branch _)
    fun _ => conservation.make Arena.preserves_cloneBlock Arena.Sound.of_cloneBlock
      fun _ => conservation.pure _

theorem residualCond (cond : Cond) (condition : Compound) :
    Conserves keeps (Reduction.residualCond recurse cond condition) :=
  conservation.bind (conservation.residualBranch each cond _) fun _ =>
    conservation.bind (conservation.residualBranch each cond _) fun _ => conservation.pure _

theorem closeCond (cond : Cond) (condition : Compound) (output : String) :
    Conserves keeps (Reduction.closeCond recurse cond condition output) := by
  unfold Reduction.closeCond
  split
  · exact conservation.reduceOutput each cond _ output
  · exact conservation.residualCond each cond condition

theorem reduceCond (cond : Cond) : Conserves keeps (Reduction.reduceCond recurse cond) :=
  conservation.bind (each _) fun condition =>
    conservation.bind (conservation.require _ _) (conservation.closeCond each cond condition)

theorem reduceNative (native : NativeLambda) (invocation : Invocation) (output : String) :
    Conserves keeps (Reduction.reduceNative recurse native invocation output) :=
  conservation.make Arena.preserves_alloc Arena.Sound.of_alloc
    fun scope => conservation.inScope (conservation.bind (conservation.inspect _)
      fun _ => conservation.bind (conservation.require _ _) each) scope

theorem reduceInvocation (invocation : Invocation) :
    Conserves keeps (Reduction.reduceInvocation recurse invocation) := by
  unfold Reduction.reduceInvocation
  refine conservation.bind (conservation.require _ _) fun output => ?_
  split
  next native _ => exact conservation.reduceNative each native invocation output
  · split
    · exact conservation.bind (conservation.requestTicket _)
        fun placeholder => conservation.resolve placeholder
    · exact conservation.pure _

theorem reducePart (part : Part) :
    Conserves keeps (Reduction.reducePart recurse part) := by
  cases part with
  | keep apply => exact conservation.pure _
  | invoke invocation => exact conservation.reduceInvocation each invocation
  | reject error => exact conservation.halt _

theorem reduceApply (apply : Apply) :
    Conserves keeps (Reduction.reduceApply recurse apply) :=
  conservation.bind (each _) fun _ => conservation.bind (conservation.mapEntries each)
    fun _ => conservation.joinMap fun part _ => conservation.reducePart each part

omit each in
theorem closeCurry (curry : Curry) (task : Compound) (bindings : Bindings) :
    Conserves keeps (Reduction.closeCurry curry task bindings : PassM σ Compound) := by
  unfold Reduction.closeCurry
  split
  · exact conservation.halt _
  · exact conservation.bind (conservation.make Arena.preserves_cloneBlock
      Arena.Sound.of_cloneBlock fun _ => conservation.pure _) fun _ => conservation.pure _
  · exact conservation.halt _
  · split
    · exact conservation.halt _
    · exact conservation.pure _
  · exact conservation.pure _

theorem reduceCurry (curry : Curry) :
    Conserves keeps (Reduction.reduceCurry recurse curry) := by
  unfold Reduction.reduceCurry
  split
  · exact conservation.halt _
  · exact conservation.halt _
  · exact conservation.bind (each _) fun task => conservation.bind
      (conservation.mapEntries each) fun bindings => conservation.closeCurry _ task bindings
  · exact conservation.pure _

theorem reduceTerm (term : Term) :
    Conserves keeps (Reduction.reduceTerm recurse term) := by
  cases term with
  | str value => exact conservation.pure _
  | lambda value => exact conservation.pure _
  | name name => exact conservation.reduceName each name
  | ticket placeholder => exact conservation.resolve placeholder
  | cond condition prototype channel thenBlock elseBlock =>
      exact conservation.reduceCond each _
  | apply task bindings channel rest => exact conservation.reduceApply each _
  | curry task bindings => exact conservation.reduceCurry each _

end Cases

theorem reduce (depth : Nat) (terms : Compound) :
    Conserves keeps (Reduction.reduce depth terms : PassM σ Compound) := by
  induction depth generalizing terms with
  | zero => exact conservation.halt _
  | succ depth ih =>
      exact conservation.joinMap fun term _ => conservation.reduceTerm ih term

theorem reduceTargets (depth : Nat) (targets : List Compound) :
    Conserves keeps (Reduction.reduceTargets depth targets : PassM σ (List Compound)) := by
  induction targets with
  | nil => exact conservation.pure _
  | cons target rest ih =>
      unfold Reduction.reduceTargets
      exact conservation.bind (conservation.reduce depth target)
        fun _ => conservation.bind ih fun _ => conservation.pure _

end Pass.Conservation

end TicketFlow
