import TicketFlow.Term.Text

namespace TicketFlow

/-! The contract of an invocation by a backend.

The task is exactly one foreign lambda, every iterated parameter is bound to
exactly one value, and every value bound to any name is a string: a lambda
belongs to the query that made it and cannot be part of a shared ticket.
-/

structure ConsumerId where
  number : Nat
deriving DecidableEq, Repr

def ConsumerId.text (consumer : ConsumerId) : String :=
  "consumer:" ++ toString consumer.number

/-- One submitted query; queries are told apart, and ordered, by number. -/
structure QueryId where
  number : Nat
deriving DecidableEq, Repr

inductive RequestError where
  | taskNotSingular (apply : Apply) (count : Nat)
  | taskNotDerivable (apply : Apply)
  | notForeign (apply : Apply)
  | argumentNotBound (apply : Apply) (param : String)
  | argumentNotSingular (apply : Apply) (param : String) (count : Nat)
  | argumentNotDerivable (apply : Apply) (param : String)
  | argumentNotLiteral (apply : Apply) (param : String) (value : Term)
  | unknownConsumer (consumer : ConsumerId)
deriving Repr

def RequestError.message : RequestError → String
  | .taskNotSingular apply count =>
      "expected singular task expression in " ++ apply.text ++ ", found " ++
        toString count ++ " values"
  | .taskNotDerivable apply =>
      "cannot derive cardinality of task expression in " ++ apply.text
  | .notForeign apply => "expected foreign lambda expression in " ++ apply.text
  | .argumentNotBound apply param =>
      "parameter '" ++ param ++ "' is not bound in " ++ apply.text
  | .argumentNotSingular apply param count =>
      "expected singular binding for '" ++ param ++ "' in " ++ apply.text ++ ", found " ++
        toString count ++ " values"
  | .argumentNotDerivable apply param =>
      "cannot derive cardinality of parameter '" ++ param ++ "' in " ++ apply.text
  | .argumentNotLiteral apply param value =>
      "parameter '" ++ param ++ "' in " ++ apply.text ++ " is bound to a " ++
        value.kind ++ "; only string values reach the backend"
  | .unknownConsumer consumer => consumer.text ++ " is not attached to the ticket source"

namespace Apply

def checkIterated (apply : Apply) (param : String) : Except RequestError Unit :=
  match apply.bindings.get? param with
  | none => .error (.argumentNotBound apply param)
  | some value =>
      match Compound.numAtoms value with
      | .error _ => .error (.argumentNotDerivable apply param)
      | .ok count =>
          if count = 1 then .ok () else .error (.argumentNotSingular apply param count)

def checkAllIterated (apply : Apply) : List String → Except RequestError Unit
  | [] => .ok ()
  | param :: rest =>
      match apply.checkIterated param with
      | .ok _ => apply.checkAllIterated rest
      | .error fault => .error fault

def checkLiterals (apply : Apply) : Bindings → Except RequestError Unit
  | [] => .ok ()
  | (param, value) :: rest =>
      match value.find? fun term => !term.isStr with
      | some other => .error (.argumentNotLiteral apply param other)
      | none => apply.checkLiterals rest

/-- The task of an application that is exactly one foreign lambda. -/
def singleForeign (apply : Apply) : Except RequestError ForeignLambda :=
  match Compound.numAtoms apply.task with
  | .error _ => .error (.taskNotDerivable apply)
  | .ok count =>
      if count = 1 then
        match apply.task with
        | .lambda (.foreign lambda) :: _ => .ok lambda
        | _ => .error (.notForeign apply)
      else .error (.taskNotSingular apply count)

/-- The foreign task of an application that fulfils the contract. -/
def foreignTask (apply : Apply) : Except RequestError ForeignLambda :=
  match apply.singleForeign with
  | .error fault => .error fault
  | .ok lambda =>
      match apply.checkAllIterated lambda.prototype.iterated with
      | .error fault => .error fault
      | .ok _ =>
          match apply.checkLiterals apply.bindings with
          | .error fault => .error fault
          | .ok _ => .ok lambda

end Apply

end TicketFlow
