import TicketFlow.Invocation

namespace TicketFlow

/-! Why a query is rejected.

Whatever is only not known yet is no error: it leaves a term for a later pass.
-/

inductive ReduceError where
  /-- A name that has to be bound where the term looks for it is not. -/
  | notBound (subject : Term) (name : String)
  | paramNotBound (apply : Apply) (param : String)
  /-- Arguments that vary together differ in length. -/
  | correlationMismatch (apply : Apply) (lengths : List (String × Nat))
  | channelOutOfRange (apply : Apply) (arity : Nat)
  /-- A value stands where a task belongs. -/
  | notLambda (subject : Term) (value : Term)
  | curryWithoutTask (curry : Curry)
  | curryOfNil (curry : Curry)
  | curryOfForeign (lambda : ForeignLambda)
  | ticket (error : RequestError)
deriving Repr

namespace ReduceError

def lengthText (entry : String × Nat) : String :=
  entry.1 ++ "=" ++ toString entry.2

def message : ReduceError → String
  | .notBound subject name => subject.text ++ ": name '" ++ name ++ "' is not bound"
  | .paramNotBound apply param =>
      apply.text ++ ": parameter '" ++ param ++ "' is not bound"
  | .correlationMismatch apply lengths =>
      apply.text ++ ": correlated parameters differ in length (" ++
        ", ".intercalate (lengths.map lengthText) ++ ")"
  | .channelOutOfRange apply arity =>
      apply.text ++ ": channel " ++ toString apply.channel ++ " exceeds output arity " ++
        toString arity
  | .notLambda subject value =>
      subject.text ++ ": " ++ value.text ++ " is not a lambda expression"
  | .curryWithoutTask curry => curry.text ++ ": task parameter not bound"
  | .curryOfNil curry => curry.text ++ ": task expression must not be nil"
  | .curryOfForeign _ => "unsupported: only native lambda expressions can be curried"
  | .ticket error => "ticket request rejected: " ++ error.message

end ReduceError

end TicketFlow
