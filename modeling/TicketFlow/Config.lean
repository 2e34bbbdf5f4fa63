import TicketFlow.Text.Blank
import TicketFlow.Ticket

namespace TicketFlow

/-! Settings of the host, read from three environment variables. -/

structure Config where
  /-- The longest that one execution may take, in seconds. -/
  ticketTimeout : Nat := 3600
  /-- A fixed run; without one every start is a run of its own. -/
  run : Option RunId := none
  logFilter : String := "info"
deriving Repr

namespace Config

inductive NumberFault where
  | empty
  | invalidDigit
  | overflow
deriving DecidableEq, Repr

inductive Error where
  | badTimeout (value : String) (fault : NumberFault)
  | badRun (value : String)
deriving DecidableEq, Repr

def timeoutVariable : String := "CFL_TICKET_TIMEOUT_SECS"

def runVariable : String := "CFL_RUN_ID"

def NumberFault.message : NumberFault → String
  | .empty => "cannot parse integer from empty string"
  | .invalidDigit => "invalid digit found in string"
  | .overflow => "number too large to fit in target type"

def Error.message : Error → String
  | .badTimeout value fault =>
      "invalid configuration: " ++ timeoutVariable ++ "='" ++ value ++ "': " ++ fault.message
  | .badRun value => "invalid configuration: " ++ runVariable ++ "='" ++ value ++ "'"

def maxSeconds : Nat := UInt64.size - 1

/-- Takes digits until one is none or the number no longer fits, whichever comes first. -/
def readDigits : List Char → Nat → Except NumberFault Nat
  | [], total => .ok total
  | c :: rest, total =>
      if '0' ≤ c ∧ c ≤ '9' then
        let next := total * 10 + (c.toNat - 48)
        if next ≤ maxSeconds then readDigits rest next else .error .overflow
      else .error .invalidDigit

/-- A natural number of 64 bits in decimal digits, with at most one plus sign before them. -/
def readNumber : List Char → Except NumberFault Nat
  | [] => .error .empty
  | '+' :: digits => if digits.isEmpty then .error .invalidDigit else readDigits digits 0
  | digits => readDigits digits 0

/-- Reads the settings that are present over the defaults; the timeout is read first. -/
def read (timeout run log : Option String) : Except Error Config := do
  let config : Config := {}
  let config ← match timeout with
    | none => .ok config
    | some value =>
        match readNumber (Text.trim value).toList with
        | .ok seconds => .ok { config with ticketTimeout := seconds }
        | .error fault => .error (.badTimeout value fault)
  let config ← match run with
    | none => .ok config
    | some value =>
        match Uuid.parse? (Text.trim value) with
        | some uuid => .ok { config with run := some ⟨uuid⟩ }
        | none => .error (.badRun value)
  pure { config with logFilter := log.getD config.logFilter }

end Config

end TicketFlow
