import TicketFlow.Proofs.Reduction.Scoping
import TicketFlow.Proofs.Timing.Lingering
import TicketFlow.Reduction.Context

namespace TicketFlow

/-! Where a reduction does more than it would do if more was known.

A reduction calls itself on what stands inside a term, or on what a block binds to
a name, to an output of a branch or to an output of a body.  Somewhere on the way
it may come to a conditional whose condition waits for a ticket: then the outputs
of both branches are reduced, of which one at most would be asked for later.  Or
it may come to a term that waits itself and was left in a block that the pass has
made, and reduce that once more.
-/

variable {σ α β : Type}

/-- Acting on the elements in order, the pass comes to one of them in this state. -/
inductive PassM.Meets (f : β → PassM σ α) : List β → Pass σ → β → Pass σ → Prop where
  | here {value : β} {rest : List β} {pass : Pass σ} :
      Meets f (value :: rest) pass value pass
  | later {value found : β} {rest : List β} {result : α} {pass between reached : Pass σ} :
      f value pass = (.ok result, between) → Meets f rest between found reached →
      Meets f (value :: rest) pass found reached

namespace Reduction

variable [TicketSource σ]

/-- An invocation of a native lambda reduces what the block that binds the
selected output binds it to. -/
inductive CallsBody : Invocation → Pass σ → BlockId → Compound → Pass σ → Prop where
  | mk {native : NativeLambda} {arguments : Bindings} {channel : Nat} {output : String}
      {scope holder : BlockId} {value : Compound} {pass called : Pass σ} :
      native.prototype.output? channel = some output → callScope native arguments pass =
        (.ok scope, called) → called.arena.FindsIn output scope holder value →
      CallsBody ⟨.native native, arguments, channel⟩ pass holder value
        (PassM.enter scope called)

/-- Going through the outputs of a branch, a conditional reduces what
one of them is bound to. -/
inductive CallsOutput (recurse : Compound → PassM σ Compound) (cond : Cond)
    (branch : BlockId) : List String → Pass σ → Compound → Pass σ → Prop where
  | mk {outputs : List String} {output : String}
      {value : Compound} {pass reached : Pass σ} :
      PassM.Meets (reduceOutput recurse cond branch) outputs pass output reached →
      reached.arena.getLocal branch output = .ok (some value) →
      CallsOutput recurse cond branch outputs pass value (PassM.enter branch reached)

/-- The compounds that the reduction of a term reduces in turn, the blocks that bind those
which do not stand in the term, and the state of the pass at each. -/
inductive Calls (recurse : Compound → PassM σ Compound) :
    Term → Pass σ → Option BlockId → Compound → Pass σ → Prop where
  | name {name : String} {holder : BlockId} {value : Compound} {pass : Pass σ} :
      pass.arena.FindsIn name pass.scope holder value →
      (pass.scope, name) ∉ pass.resolving → Calls recurse (.name name) pass
      (some holder) value { pass with resolving := (pass.scope, name) :: pass.resolving }
  | condition {cond : Cond} {pass : Pass σ} :
      Calls recurse cond.toTerm pass none cond.condition pass
  | chosen {cond : Cond} {condition value : Compound}
      {output : String} {branch : BlockId} {pass decided : Pass σ} :
      recurse cond.condition pass = (.ok condition, decided) →
      cond.prototype.output? cond.channel = some output →
      decide? cond condition = some branch →
      decided.arena.getLocal branch output = .ok (some value) →
      Calls recurse cond.toTerm pass (some branch) value (PassM.enter branch decided)
  | thenOutput {cond : Cond} {condition value : Compound}
      {output : String} {pass undecided inner : Pass σ} :
      recurse cond.condition pass = (.ok condition, undecided) →
      cond.prototype.output? cond.channel = some output → decide? cond condition = none →
      CallsOutput recurse cond cond.thenBlock cond.prototype.outputs undecided value inner →
      Calls recurse cond.toTerm pass (some cond.thenBlock) value inner
  | elseOutput {cond : Cond} {condition value : Compound} {output : String}
      {thenBlock : BlockId} {pass undecided after inner : Pass σ} :
      recurse cond.condition pass = (.ok condition, undecided) →
      cond.prototype.output? cond.channel = some output →
      decide? cond condition = none →
      residualBranch recurse cond cond.thenBlock undecided = (.ok thenBlock, after) →
      CallsOutput recurse cond cond.elseBlock cond.prototype.outputs after value inner →
      Calls recurse cond.toTerm pass (some cond.elseBlock) value inner
  | task {apply : Apply} {pass : Pass σ} :
      Calls recurse apply.toTerm pass none apply.task pass
  | argument {apply : Apply} {task : Compound} {binding : String × Compound}
      {pass told inner : Pass σ} : recurse apply.task pass = (.ok task, told) →
      PassM.Meets (fun binding => recurse binding.2) apply.bindings told binding inner →
      Calls recurse apply.toTerm pass none binding.2 inner
  | body {apply : Apply} {task value : Compound}
      {bindings : Bindings} {invocation : Invocation} {holder : BlockId}
      {pass told reduced reached inner : Pass σ} :
      recurse apply.task pass = (.ok task, told) →
      PassM.mapEntries recurse apply.bindings told = (.ok bindings, reduced) →
      PassM.Meets (reducePart recurse) (Apply.expand { apply with task, bindings })
        reduced (.invoke invocation) reached →
      CallsBody invocation reached holder value inner →
      Calls recurse apply.toTerm pass (some holder) value inner
  | curriedTask {task : Term} {bindings : Bindings} {pass : Pass σ} :
      Calls recurse (.curry (some [task]) bindings) pass none [task] pass
  | curriedArgument {task : Term} {told : Compound} {bindings : Bindings}
      {binding : String × Compound} {pass between inner : Pass σ} :
      recurse [task] pass = (.ok told, between) →
      PassM.Meets (fun binding => recurse binding.2) bindings between binding inner →
      Calls recurse (.curry (some [task]) bindings) pass none binding.2 inner

/-- The reduction of the term is rejected for something that is done only because a
ticket is waited for. -/
inductive Idles (waits : Placeholder → Prop) (recurse : Compound → PassM σ Compound)
    (again : Prop) : Term → Pass σ → Halt → Prop where
  /-- The term was left because it waits, and is reduced once more. -/
  | again {term : Term} {pass : Pass σ} {reason : Halt} :
      again → term.Awaits waits → (reduceTerm recurse term pass).1 = .error reason →
      Idles waits recurse again term pass reason
  /-- The condition waits, and the outputs of both branches are reduced. -/
  | branches {cond : Cond} {condition : Compound}
      {output : String} {pass undecided : Pass σ} {reason : Halt} :
      recurse cond.condition pass = (.ok condition, undecided) →
      condition.Awaits waits → cond.prototype.output? cond.channel = some output →
      (residualCond recurse cond condition undecided).1 = .error reason →
      Idles waits recurse again cond.toTerm pass reason

/-- Somewhere on the way the reduction is rejected for something that is done only because
a ticket is waited for.  Terms are reduced again where they stand in a compound that was
`again`, or that a block binds which was made on the way. -/
inductive Strays (waits : Placeholder → Prop) (made : BlockId → Prop) :
    Prop → Nat → Compound → Pass σ → Halt → Prop where
  | here {again : Prop} {depth : Nat} {terms : Compound}
      {term : Term} {pass reached : Pass σ} {reason : Halt} :
      PassM.Meets (reduceTerm (reduce depth)) terms pass term reached →
      Idles waits (reduce depth) again term reached reason →
      Strays waits made again (depth + 1) terms pass reason
  | inside {again : Prop} {depth : Nat} {terms value : Compound} {term : Term}
      {holder : Option BlockId} {pass reached inner : Pass σ} {reason : Halt} :
      PassM.Meets (reduceTerm (reduce depth)) terms pass term reached →
      Calls (reduce depth) term reached holder value inner →
      Strays waits made (holder.elim again made) depth value inner reason →
      Strays waits made again (depth + 1) terms pass reason

end Reduction

/-- The block was not in use when the pass began. -/
def Context.Made (context : Context) (slot : BlockId) : Prop :=
  ∀ block, ¬context.arena.Live slot block

/-- Reducing the targets, which were not reduced before, the pass comes to one that strays. -/
def Context.Strays [TicketSource σ] (context : Context) (waits : Placeholder → Prop)
    (depth : Nat) (source : σ) (consumer : ConsumerId) (query : QueryId)
    (reason : Halt) : Prop :=
  ∃ target reached, PassM.Meets (Reduction.reduce depth) context.targets
      (Pass.start consumer query source context.arena context.root) target reached ∧
    Reduction.Strays waits context.Made False depth target reached reason

section Rejection

namespace PassM

variable {γ : Type} {first : PassM σ α} {next : α → PassM σ β} {value : α}
  {pass after : Pass σ} {reason : Halt}

theorem bind_error (failed : (first pass).1 = .error reason) :
    ((first >>= next) pass).1 = .error reason :=
  congrArg Prod.fst (bind_error_iff.mpr (.inl (Prod.ext failed rfl)))

theorem bind_error_of_ok (ran : first pass = (.ok value, after))
    (failed : (next value after).1 = .error reason) :
    ((first >>= next) pass).1 = .error reason :=
  congrArg Prod.fst (bind_error_iff.mpr (.inr ⟨value, after, ran, Prod.ext failed rfl⟩))

/-- A traversal fails where it meets an element that does. -/
theorem Meets.error {f : β → PassM σ α} {values : List β} {found : β}
    {reached : Pass σ} {traverse : List β → PassM σ γ} {join : β → α → γ → γ}
    (meets : Meets f values pass found reached)
    (cons : ∀ value rest, traverse (value :: rest) =
      f value >>= fun head => traverse rest >>= fun tail => pure (join value head tail))
    (failed : (f found reached).1 = .error reason) :
    (traverse values pass).1 = .error reason := by
  induction meets with
  | here =>
      rw [cons]
      exact bind_error failed
  | later ran _ ih =>
      rw [cons]
      exact bind_error_of_ok ran (bind_error (ih failed))

end PassM

namespace Reduction

open PassM

variable {recurse : Compound → PassM σ Compound} {term : Term} {terms value : Compound}
  {pass inner : Pass σ} {reason : Halt} {waits : Placeholder → Prop}
  {made : BlockId → Prop} {again : Prop} {holder : BlockId}

theorem reduceOutput_error {cond : Cond} {branch : BlockId} {output : String}
    (found : pass.arena.getLocal branch output = .ok (some value))
    (failed : (recurse value (enter branch pass)).1 = .error reason) :
    (reduceOutput recurse cond branch output pass).1 = .error reason := by
  have looked : inspect (fun arena => arena.getLocal branch output) pass =
      (.ok (some value), pass) := by
    simp only [inspect, found]
  exact bind_error_of_ok looked failed

theorem CallsOutput.error {cond : Cond} {branch : BlockId} {outputs : List String}
    (calls : CallsOutput recurse cond branch outputs pass value inner)
    (failed : (recurse value inner).1 = .error reason) :
    (reduceOutputs recurse cond branch outputs pass).1 = .error reason := by
  obtain ⟨meets, found⟩ := calls
  exact meets.error (fun _ _ => rfl) (reduceOutput_error found failed)

theorem reduceCond_error {cond : Cond} {condition : Compound} {output : String}
    {reached : Pass σ} (known : recurse cond.condition pass = (.ok condition, reached))
    (selected : cond.prototype.output? cond.channel = some output)
    (failed : (closeCond recurse cond condition output reached).1 = .error reason) :
    (reduceCond recurse cond pass).1 = .error reason := by
  rw [reduceCond_eq, selected]
  exact bind_error_of_ok known failed

variable [TicketSource σ]

theorem CallsBody.error {invocation : Invocation}
    (calls : CallsBody invocation pass holder value inner)
    (failed : (recurse value inner).1 = .error reason) :
    (reduceInvocation recurse invocation pass).1 = .error reason := by
  cases calls with
  | @mk native arguments channel output scope _ _ _ called selected entered finds =>
      have body :
          (reduceNative recurse native ⟨.native native, arguments, channel⟩ output pass).1 =
            .error reason := by
        rw [reduceNative_eq]
        refine bind_error_of_ok entered ?_
        have looked : inspect (fun arena => arena.lookup scope output)
            (enter scope called) = (.ok (some value), enter scope called) := by
          simp only [inspect, enter, finds.lookup]
        exact bind_error_of_ok looked failed
      unfold reduceInvocation
      rw [Lambda.prototype, selected]
      exact body

/-- What is reduced in turn and fails lets the reduction of the term fail. -/
theorem Calls.error {holder : Option BlockId}
    (calls : Calls recurse term pass holder value inner)
    (failed : (recurse value inner).1 = .error reason) :
    (reduceTerm recurse term pass).1 = .error reason := by
  cases calls with
  | @name name _ _ _ finds unmarked =>
      have looked : inspect (fun arena => arena.lookup pass.scope name) pass =
          (.ok (some value), pass) := by
        simp only [inspect, finds.lookup]
      have here : view Pass.scope pass = (.ok pass.scope, pass) := rfl
      have fresh : view (fun pass => pass.resolving.contains (pass.scope, name)) pass =
          (.ok false, pass) := by
        simpa [view] using unmarked
      exact bind_error_of_ok here (bind_error_of_ok looked (bind_error_of_ok fresh failed))
  | condition => exact bind_error failed
  | chosen decided selected chosen found =>
      refine reduceCond_error decided selected ?_
      rw [closeCond, chosen]
      exact reduceOutput_error found failed
  | thenOutput undecided selected unknown outputs =>
      refine reduceCond_error undecided selected ?_
      rw [closeCond, unknown]
      exact bind_error (bind_error (outputs.error failed))
  | elseOutput undecided selected unknown left outputs =>
      refine reduceCond_error undecided selected ?_
      rw [closeCond, unknown]
      exact bind_error_of_ok left (bind_error (bind_error (outputs.error failed)))
  | task => exact bind_error failed
  | argument told meets =>
      exact bind_error_of_ok told (bind_error (meets.error (fun _ _ => rfl) failed))
  | body told reduced meets calls =>
      refine bind_error_of_ok told (bind_error_of_ok reduced (meets.error (fun _ _ => rfl) ?_))
      exact calls.error failed
  | curriedTask => exact bind_error failed
  | curriedArgument told meets =>
      exact bind_error_of_ok told (bind_error (meets.error (fun _ _ => rfl) failed))

theorem Idles.error (idles : Idles waits recurse again term pass reason) :
    (reduceTerm recurse term pass).1 = .error reason := by
  cases idles with
  | again _ _ failed => exact failed
  | branches undecided awaits selected failed =>
      refine reduceCond_error undecided selected ?_
      rwa [closeCond_of_awaits _ awaits]

/-- Where a reduction strays it is rejected. -/
theorem Strays.error {depth : Nat}
    (strays : Strays waits made again depth terms pass reason) :
    (reduce depth terms pass).1 = .error reason := by
  induction strays with
  | here meets idles => exact meets.error (fun _ _ => rfl) idles.error
  | inside meets calls _ ih => exact meets.error (fun _ _ => rfl) (calls.error ih)

end Reduction

theorem Context.outcome_reduce [TicketSource σ] (context : Context) (depth : Nat)
    (source : σ) (consumer : ConsumerId) (query : QueryId) :
    (context.reduce depth source consumer query).outcome =
      (Reduction.reduceTargets depth context.targets
        (Pass.start consumer query source context.arena context.root)).1.map List.flatten := by
  unfold Context.reduce
  split
  · next ran => rw [ran]; rfl
  · next ended => rw [ended]; rfl

theorem Context.Strays.error [TicketSource σ] {context : Context}
    {waits : Placeholder → Prop} {depth : Nat} {source : σ}
    {consumer : ConsumerId} {query : QueryId} {reason : Halt}
    (strays : context.Strays waits depth source consumer query reason) :
    (context.reduce depth source consumer query).outcome = .error reason := by
  obtain ⟨target, reached, meets, strays⟩ := strays
  have failed : (Reduction.reduceTargets depth context.targets
      (Pass.start consumer query source context.arena context.root)).1 = .error reason :=
    meets.error (fun _ _ => rfl) strays.error
  rw [outcome_reduce, failed]
  rfl

end Rejection

end TicketFlow
