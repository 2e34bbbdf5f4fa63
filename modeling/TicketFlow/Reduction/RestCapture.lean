import TicketFlow.Term.Text

namespace TicketFlow

/-! Capture of excess arguments.

An application may bind more names than its task declares.  Once the task is
known to be one lambda and every excess argument is reduced to values, the rest
parameter of the task takes them all, in binding order, after what it is bound
to already.  Until then the application stays as it is.

The application is changed in place: every excess argument is looked at first,
and only then are they taken out, one by one.
-/

/-- The arguments that the prototype does not declare. -/
def Prototype.excess (prototype : Prototype) (bindings : Bindings) : Bindings :=
  bindings.filter fun binding => !prototype.declares binding.1

namespace Apply

/-- Fails with the text of the first alternative that is no value. -/
def checkValues : List (String × Compound) → Except String Unit
  | [] => .ok ()
  | (_, value) :: rest =>
      match Compound.numAtoms value with
      | .error term => .error term.text
      | .ok _ => checkValues rest

/-- Takes the arguments out of the bindings, and puts each behind what is captured so far. -/
def moveOut : List (String × Compound) → Bindings → Compound → Bindings × Compound
  | [], bindings, captured => (bindings, captured)
  | (name, value) :: rest, bindings, captured =>
      moveOut rest (bindings.erase name) (captured ++ value)

/-- Captures the excess arguments.  It ends early, with the text of what is not known, if
not all that it takes is; the application may be captured again when more is known. -/
def absorbRest (apply : Apply) : Except String Unit × Apply :=
  match apply.task with
  | [.lambda lambda] =>
      match lambda.prototype.rest with
      | none => (.ok (), { apply with rest := false })
      | some rest =>
          let excess := lambda.prototype.excess apply.bindings
          match checkValues excess with
          | .error unknown => (.error unknown, apply)
          | .ok _ =>
              let bound := (apply.bindings.get? rest).getD []
              let (bindings, captured) := moveOut excess (apply.bindings.erase rest) bound
              (.ok (),
                { apply with bindings := bindings.insert rest captured, rest := false })
  | task => (.error (Compound.text task), apply)

/-- The application with its excess arguments captured, or unchanged
while this has to wait. -/
def captureRest (apply : Apply) : Apply :=
  if apply.rest then apply.absorbRest.2 else apply

end Apply

end TicketFlow
