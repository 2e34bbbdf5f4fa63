import TicketFlow.Reduction.Error

namespace TicketFlow

/-! Combination of arguments.

An application of known tasks to known arguments denotes single invocations,
each of one task with one value for every iterated parameter; all other
arguments are passed on whole.  The first task decides how values combine.
Correlated arguments are taken in step, and so are the tasks if there are
several.  Otherwise every choice is taken: tasks vary slowest, the last
parameter fastest.
-/

structure Invocation where
  lambda : Lambda
  bindings : Bindings
  channel : Nat
deriving Repr

def Invocation.toApply (invocation : Invocation) : Apply where
  task := [.lambda invocation.lambda]
  bindings := invocation.bindings
  channel := invocation.channel

structure Combination where
  apply : Apply
  tasks : List Lambda
  iterated : List (String × Compound)
  correlated : Bool
  /-- The number of invocations, as 64 bits hold it. -/
  cardinality : Nat
deriving Repr

namespace Combination

inductive Obstacle where
  /-- Something is not reduced to values yet. -/
  | notDerivable (term : Term)
  | rejected (error : ReduceError)
deriving Repr

def tasksOf (apply : Apply) : Compound → Except Obstacle (List Lambda)
  | [] => .ok []
  | .lambda lambda :: rest => (tasksOf apply rest).map (lambda :: ·)
  | other :: _ =>
      if other.isNormal then .error (.rejected (.notLambda apply.toTerm other))
      else .error (.notDerivable other)

def checkBound (apply : Apply) : List String → Except Obstacle Unit
  | [] => .ok ()
  | param :: rest =>
      if apply.bindings.contains param then checkBound apply rest
      else .error (.rejected (.paramNotBound apply param))

def valuesOf (apply : Apply) : List String → Except Obstacle (List (String × Compound))
  | [] => .ok []
  | param :: rest =>
      match apply.bindings.get? param with
      | none => .error (.rejected (.paramNotBound apply param))
      | some value =>
          match Compound.numAtoms value with
          | .error term => .error (.notDerivable term)
          | .ok _ => (valuesOf apply rest).map ((param, value) :: ·)

/-- What is taken in step in a correlated combination, with its length. -/
def lengths (tasks : List Lambda) (iterated : List (String × Compound)) :
    List (String × Nat) :=
  (if 1 < tasks.length then [(Prototype.taskLabel, tasks.length)] else []) ++
    iterated.map fun entry => (entry.1, entry.2.length)

/-- The common length of everything taken in step; one if there is nothing. -/
def correlatedCount (apply : Apply) (lengths : List (String × Nat)) :
    Except Obstacle Nat :=
  match lengths with
  | [] => .ok 1
  | first :: _ =>
      if lengths.all fun entry => entry.2 == first.2 then .ok first.2
      else .error (.rejected (.correlationMismatch apply lengths))

def countLimit : Nat := UInt64.size

def choiceCount (tasks : List Lambda) (iterated : List (String × Compound)) : Nat :=
  (tasks.length * (iterated.map fun entry => entry.2.length).foldr (· * ·) 1) % countLimit

def count (apply : Apply) (correlated : Bool) (tasks : List Lambda)
    (iterated : List (String × Compound)) : Except Obstacle Nat :=
  if correlated then correlatedCount apply (lengths tasks iterated)
  else .ok (choiceCount tasks iterated)

def ofApply (apply : Apply) : Except Obstacle Combination :=
  match tasksOf apply apply.task with
  | .error obstacle => .error obstacle
  | .ok [] =>
      .ok { apply, tasks := [], iterated := [], correlated := false, cardinality := 0 }
  | .ok (first :: others) =>
      match checkBound apply first.prototype.aggregates with
      | .error obstacle => .error obstacle
      | .ok _ =>
          match valuesOf apply first.prototype.iterated with
          | .error obstacle => .error obstacle
          | .ok iterated =>
              (count apply first.prototype.correlated (first :: others) iterated).map
                fun cardinality =>
                { apply, tasks := first :: others, iterated, cardinality
                  correlated := first.prototype.correlated }

def pickInStep (index : Nat) (iterated : List (String × Compound)) :
    List (String × Term) :=
  iterated.filterMap fun entry => entry.2[index]?.map fun value => (entry.1, value)

/-- Reads an index as a choice of values, the first parameter fastest, and hands back what
is left of the index. -/
def pickChoice (index : Nat) : List (String × Compound) → List (String × Term) × Nat
  | [] => ([], index)
  | (param, values) :: rest =>
      let (picks, left) := pickChoice (index / values.length) rest
      match values[index % values.length]? with
      | some value => ((param, value) :: picks, left)
      | none => (picks, left)

def pick (combination : Combination) (index : Nat) :
    Option Lambda × List (String × Term) :=
  if combination.correlated then
    (match combination.tasks with
      | [single] => some single
      | tasks => tasks[index]?,
      pickInStep index combination.iterated)
  else
    let (picks, left) := pickChoice index combination.iterated.reverse
    (combination.tasks[left]?, picks)

/-- Puts the picked values in the place of the arguments they come from. -/
def select (picks : List (String × Term)) (bindings : Bindings) : Bindings :=
  bindings.map fun binding =>
    match OrderedMap.get? picks binding.1 with
    | some value => (binding.1, [value])
    | none => binding

def invocation? (combination : Combination) (index : Nat) : Option Invocation :=
  let (task, picks) := combination.pick index
  task.map fun lambda =>
    { lambda, bindings := select picks combination.apply.bindings,
      channel := combination.apply.channel }

def invocations (combination : Combination) : List Invocation :=
  (List.range combination.cardinality).filterMap combination.invocation?

end Combination

end TicketFlow
