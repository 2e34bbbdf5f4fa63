namespace TicketFlow.Text

/-! Durations as messages show them.

The unit is the largest of seconds and milliseconds that is not below one; a
fraction of a second is written without zeros at its end.
-/

/-- The digits of a fraction of a second in milliseconds, without zeros at the end. -/
def fractionDigits (milliseconds : Nat) : String :=
  if milliseconds % 100 = 0 then toString (milliseconds / 100)
  else if milliseconds % 10 = 0 then paddedTo 2 (milliseconds / 10)
  else paddedTo 3 milliseconds
where
  paddedTo (width value : Nat) : String :=
    let digits := toString value
    String.ofList (List.replicate (width - digits.length) '0') ++ digits

def duration (milliseconds : Nat) : String :=
  let seconds := milliseconds / 1000
  let rest := milliseconds % 1000
  if seconds = 0 then if rest = 0 then "0ns" else toString rest ++ "ms"
  else if rest = 0 then toString seconds ++ "s"
  else toString seconds ++ "." ++ fractionDigits rest ++ "s"

example : [0, 20, 1000, 1500, 2250, 3007, 60000].map duration =
    ["0ns", "20ms", "1s", "1.5s", "2.25s", "3.007s", "60s"] := by cbv

end TicketFlow.Text
