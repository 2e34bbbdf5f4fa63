import TicketFlow.Text.Blank
import TicketFlow.Ticket

namespace TicketFlow

/-! Lines of an execution log: what a backend reports about a finished ticket. -/

structure ReportEntry where
  /-- Milliseconds, as 64 bits without a sign. -/
  timestamp : Nat
  run : RunId
  ticket : TicketId
  lambda : String
  key : String
  value : Json
deriving Repr

namespace ReportEntry

def toJson (entry : ReportEntry) : Json :=
  .object [("timestamp_ms", Json.nat entry.timestamp),
    ("run", .string entry.run.uuid.text), ("ticket", entry.ticket.toJson),
    ("lambda", .string entry.lambda), ("key", .string entry.key), ("value", entry.value)]

def line (entry : ReportEntry) : String :=
  entry.toJson.text

end ReportEntry

def RawJson.reportEntry? (depth : Nat) (value : RawJson) : Option ReportEntry :=
  inside depth fun depth => do
    let record ← value.record? ["timestamp_ms", "run", "ticket", "lambda", "key", "value"]
    let timestamp ← record.required 0 nat?
    let run ← record.required 1 runId?
    let ticket ← record.required 2 digest?
    let lambda ← record.required 3 string?
    let key ← record.required 4 string?
    let value ← record.required 5 (toJson? depth)
    pure { timestamp, run, ticket, lambda, key, value }

/-- Reads a line; blanks at its end do not count. -/
def ReportEntry.ofLine? (line : String) : Option ReportEntry :=
  RawJson.readText? RawJson.reportEntry? (Text.trimEnd line)

end TicketFlow
