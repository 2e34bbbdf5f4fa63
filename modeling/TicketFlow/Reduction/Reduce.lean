import TicketFlow.Reduction.Expansion
import TicketFlow.Reduction.Pass

namespace TicketFlow

/-! Reduction of terms.

Strings and lambdas are values.  A name stands for what it is bound to, a ticket
for its output once it is finished.  A conditional takes a branch as soon as its
condition is known to be empty or to hold values only.  Applications of native
lambdas are replaced by their outputs, those of foreign lambdas by tickets.
What is not known yet stays, with everything inside it reduced.

Each case takes the reduction of compounds as a parameter; `reduce` closes the
recursion and bounds its depth.
-/

namespace Reduction

variable {σ : Type} [TicketSource σ]

/-- The output of a finished ticket, or the placeholder for it. -/
def resolve (placeholder : Placeholder) : PassM σ Compound := do
  let output ← PassM.ask
      fun source => TicketSource.read source placeholder.ticket placeholder.channel
  pure (output.getD [.ticket placeholder])

theorem resolve_run (placeholder : Placeholder) (pass : Pass σ) :
    resolve placeholder pass =
      (.ok ((TicketSource.output? pass.source placeholder.ticket placeholder.channel).getD
        [.ticket placeholder]),
        { pass with
          source := (TicketSource.read pass.source placeholder.ticket placeholder.channel).2 }) :=
  rfl

def requestTicket (apply : Apply) : PassM σ Placeholder :=
  fun pass =>
    match TicketSource.request pass.source pass.consumer pass.query apply with
    | .ok (placeholder, source) => (.ok placeholder, { pass with source })
    | .error error => (.error (.rejected (.ticket error)), pass)

def require {α : Type} (error : ReduceError) : Option α → PassM σ α
  | some value => pure value
  | none => PassM.reject error

section Cases

variable (recurse : Compound → PassM σ Compound)

/-- A name that is met again while it is being resolved in the same scope stays. -/
def reduceName (name : String) : PassM σ Compound := do
  let scope ← PassM.view Pass.scope
  match ← PassM.inspect fun arena => arena.lookup scope name with
  | none => pure [.name name]
  | some bound =>
      if ← PassM.view fun pass => pass.resolving.contains (scope, name) then
        pure [.name name]
      else PassM.whileResolving (scope, name) (recurse bound)

def reduceOutput (cond : Cond) (branch : BlockId) (output : String) :
    PassM σ Compound := do
  let bound ← PassM.inspect fun arena => arena.getLocal branch output
  let value ← require (.notBound cond.toTerm output) bound
  PassM.inScope branch (recurse value)

def reduceOutputs (cond : Cond) (branch : BlockId) : List String → PassM σ Bindings
  | [] => pure []
  | output :: rest => do
      let value ← reduceOutput recurse cond branch output
      let others ← reduceOutputs cond branch rest
      pure ((output, value) :: others)

/-- A copy of a branch that has every declared output reduced; the branch stays as it is. -/
def residualBranch (cond : Cond) (branch : BlockId) : PassM σ BlockId := do
  let outputs ← reduceOutputs recurse cond branch cond.prototype.outputs
  let fresh ← PassM.build fun arena => arena.cloneBlock branch
  PassM.build fun arena => (arena.bindAll fresh outputs).map ((), ·)
  pure fresh

def decide? (cond : Cond) (condition : Compound) : Option BlockId :=
  if condition.isEmpty then some cond.elseBlock
  else if Compound.isNormal condition then some cond.thenBlock
  else none

def reduceCond (cond : Cond) : PassM σ Compound := do
  let condition ← recurse cond.condition
  let output ← require (.notBound cond.toTerm ("output channel " ++ toString cond.channel))
      (cond.prototype.output? cond.channel)
  match decide? cond condition with
  | some branch => reduceOutput recurse cond branch output
  | none => do
      let thenBlock ← residualBranch recurse cond cond.thenBlock
      let elseBlock ← residualBranch recurse cond cond.elseBlock
      pure [Cond.toTerm { cond with condition, thenBlock, elseBlock }]

/-- The output of a native lambda: the arguments become a scope below its body. -/
def reduceNative (native : NativeLambda) (invocation : Invocation) (output : String) :
    PassM σ Compound := do
  let scope ← PassM.build fun arena => arena.alloc (some native.body)
  PassM.build fun arena => (arena.bindAll scope invocation.bindings).map ((), ·)
  PassM.inScope scope do
    let bound ← PassM.inspect fun arena => arena.lookup scope output
    recurse (← require (.notBound invocation.toApply.toTerm output) bound)

def reduceInvocation (invocation : Invocation) : PassM σ Compound := do
  let apply := invocation.toApply
  let output ← require (.channelOutOfRange apply invocation.lambda.prototype.arity)
    (invocation.lambda.prototype.output? invocation.channel)
  match invocation.lambda with
  | .native native => reduceNative recurse native invocation output
  | .foreign _ =>
      if apply.areArgumentsNormal then resolve (← requestTicket apply)
      else pure [apply.toTerm]

def reducePart : Part → PassM σ Compound
  | .keep apply => pure [apply.toTerm]
  | .invoke invocation => reduceInvocation recurse invocation
  | .reject error => PassM.reject error

def reduceApply (apply : Apply) : PassM σ Compound := do
  let task ← recurse apply.task
  let bindings ← PassM.mapEntries recurse apply.bindings
  PassM.joinMap (reducePart recurse) (Apply.expand { apply with task, bindings })

/-- The lambda that a native lambda becomes by binding some of its parameters. -/
def bindParams (native : NativeLambda) (bindings : Bindings) : PassM σ NativeLambda := do
  let body ← PassM.build fun arena => arena.cloneBlock native.body
  PassM.build fun arena => (arena.bindAll body bindings).map ((), ·)
  pure { prototype := bindings.keys.foldl Prototype.erase native.prototype, body }

def closeCurry (curry : Curry) (task : Compound) (bindings : Bindings) :
    PassM σ Compound :=
  match task with
  | [] => PassM.reject (.curryOfNil curry)
  | [.lambda (.native native)] =>
      do pure [.lambda (.native (← bindParams native bindings))]
  | [.lambda (.foreign lambda)] => PassM.reject (.curryOfForeign lambda)
  | [other] =>
      if other.isNormal then PassM.reject (.notLambda curry.toTerm other)
      else pure [Curry.toTerm { task := some task, bindings }]
  | _ => pure [Curry.toTerm { task := some task, bindings }]

/-- A curry of several tasks stays as it is. -/
def reduceCurry (curry : Curry) : PassM σ Compound :=
  match curry.task with
  | none => PassM.reject (.curryWithoutTask curry)
  | some [] => PassM.reject (.curryOfNil curry)
  | some [term] => do
      let task ← recurse [term]
      let bindings ← PassM.mapEntries recurse curry.bindings
      closeCurry curry task bindings
  | some _ => pure [curry.toTerm]

def reduceTerm : Term → PassM σ Compound
  | .str value => pure [.str value]
  | .lambda value => pure [.lambda value]
  | .name name => reduceName recurse name
  | .ticket placeholder => resolve placeholder
  | .cond condition prototype channel thenBlock elseBlock =>
      reduceCond recurse { condition, prototype, channel, thenBlock, elseBlock }
  | .apply task bindings channel rest =>
      reduceApply recurse { task, bindings, channel, rest }
  | .curry task bindings => reduceCurry recurse { task, bindings }

end Cases

/-- Reduces the alternatives of a compound in order, at most `depth`
compounds inside each other. -/
def reduce : Nat → Compound → PassM σ Compound
  | 0 => fun _ => PassM.halt .exhausted
  | depth + 1 => PassM.joinMap (reduceTerm (reduce depth))

def ampleDepth : Nat := 1000000000

end Reduction

end TicketFlow
