namespace TicketFlow

/-! Signatures of tasks.

A prototype lists the parameters of a task, how each takes part in an
application, and the outputs, which are selected by channels counted from one.
-/

inductive Param where
  /-- Iterated over: each value of the argument has its own invocation. -/
  | plain (name : String)
  /-- Bound to the whole argument at once. -/
  | aggregate (name : String)
deriving DecidableEq, Repr

namespace Param

def name : Param → String
  | .plain name => name
  | .aggregate name => name

def isPlain : Param → Bool
  | .plain _ => true
  | .aggregate _ => false

end Param

structure Prototype where
  params : List Param
  outputs : List String
  /-- Arguments vary together instead of independently of each other. -/
  correlated : Bool := false
  /-- The parameter that captures the excess arguments of an application. -/
  rest : Option String := none
deriving DecidableEq, Repr

namespace Prototype

/-- The parameter that stands for the task itself.  It is never iterated over. -/
def taskLabel : String := "task"

def paramNames (prototype : Prototype) : List String :=
  prototype.params.map Param.name ++ prototype.rest.toList

/-- The parameters whose arguments are combined one value at a time. -/
def iterated (prototype : Prototype) : List String :=
  (prototype.params.filter fun param => param.isPlain && param.name != taskLabel).map
    Param.name

def aggregates (prototype : Prototype) : List String :=
  (prototype.params.filter fun param => !param.isPlain).map Param.name

def declares (prototype : Prototype) (name : String) : Bool :=
  prototype.paramNames.contains name

def erase (prototype : Prototype) (name : String) : Prototype :=
  { prototype with
    params := prototype.params.filter fun param => param.name != name
    rest := prototype.rest.filter fun rest => rest != name }

def arity (prototype : Prototype) : Nat :=
  prototype.outputs.length

def output? (prototype : Prototype) : Nat → Option String
  | 0 => none
  | index + 1 => prototype.outputs[index]?

def paramText : Param → String
  | .plain name => " " ++ name
  | .aggregate name => " <" ++ name ++ ">"

def text (prototype : Prototype) : String :=
  let rest := match prototype.rest with
    | some name => " " ++ name ++ "..."
    | none => ""
  "(" ++ " ".intercalate prototype.outputs ++ " :" ++
    String.join (prototype.params.map paramText) ++ rest ++ ")"

theorem declares_erase (prototype : Prototype) (name other : String) :
    (prototype.erase name).declares other = (prototype.declares other && other != name) := by
  cases rest : prototype.rest with
  | none =>
      simp only [declares, paramNames, erase, rest, Option.filter_none]
      rw [Bool.eq_iff_iff]
      simp only [List.contains_iff_mem, Bool.and_eq_true, bne_iff_ne, ne_eq,
        List.mem_append, List.mem_map, List.mem_filter, Option.toList_none,
        List.not_mem_nil, or_false]
      grind
  | some captured =>
      simp only [declares, paramNames, erase, rest]
      rw [Bool.eq_iff_iff]
      by_cases same : captured = name
      · simp only [same, Option.filter_some, bne_self_eq_false, List.contains_iff_mem,
          Bool.and_eq_true, bne_iff_ne, ne_eq, List.mem_append, List.mem_map,
          List.mem_filter]
        grind
      · simp only [Option.filter_some, List.contains_iff_mem,
          Bool.and_eq_true, bne_iff_ne, ne_eq, List.mem_append, List.mem_map,
          List.mem_filter]
        grind

end Prototype

end TicketFlow
