import TicketFlow.Cbor
import TicketFlow.Term.Decode
import TicketFlow.Term.Encode
import TicketFlow.Uuid

namespace TicketFlow

/-! Tickets: single invocations of foreign tasks, addressed by content.

Run, task and arguments together are the identity of a ticket.  Its address is
the digest of the canonical encoding of these three, so requests that agree on
them share one ticket, whatever the order of their bindings.
-/

/-- One workflow run; part of the identity of every ticket. -/
structure RunId where
  uuid : Uuid
deriving DecidableEq, Repr

def RunId.text (run : RunId) : String :=
  "run:" ++ run.uuid.text

structure Ticket where
  id : TicketId
  run : RunId
  lambda : ForeignLambda
  /-- The arguments, in the order of their names. -/
  bindings : Bindings
deriving Repr

namespace Ticket

def bindingsCbor (bindings : Bindings) : Cbor :=
  Cbor.ofJson (Bindings.toJson bindings)

/-- What the address of a ticket is computed from. -/
def identity (run : RunId) (lambda : ForeignLambda) (bindings : Bindings) : Cbor :=
  Cbor.sortedMap [("lambda", Cbor.ofJson lambda.toJson),
    ("bindings", bindingsCbor bindings), ("run", .bytes run.uuid.bytes)]

def identityBytes (run : RunId) (lambda : ForeignLambda)
    (bindings : Bindings) : List UInt8 :=
  (identity run lambda bindings).canonical

/-- The ticket for an invocation; of a repeated name the last binding counts. -/
def create (run : RunId) (lambda : ForeignLambda) (bindings : Bindings) : Ticket :=
  let sorted := OrderedMap.sortedOfList Json.nameBefore bindings
  { id := Digest.ofBytes (identityBytes run lambda sorted), run, lambda,
    bindings := sorted }

def arity (ticket : Ticket) : Nat :=
  ticket.lambda.prototype.arity

def outputName? (ticket : Ticket) (channel : Nat) : Option String :=
  ticket.lambda.prototype.output? channel

def script (ticket : Ticket) : String :=
  ticket.lambda.script

def toJson (ticket : Ticket) : Json :=
  .object [("id", ticket.id.toJson), ("run", .string ticket.run.uuid.text),
    ("lambda", ticket.lambda.toJson), ("bindings", Bindings.toJson ticket.bindings)]

def toCbor (ticket : Ticket) : Cbor :=
  Cbor.sortedMap [("id", .text ticket.id.text), ("run", .bytes ticket.run.uuid.bytes),
    ("lambda", Cbor.ofJson ticket.lambda.toJson), ("bindings", bindingsCbor ticket.bindings)]

end Ticket

namespace RawJson

def runId? (value : RawJson) : Option RunId :=
  (value.string?.bind Uuid.parse?).map RunId.mk

def ticket? (depth : Nat) (value : RawJson) : Option Ticket :=
  inside depth fun depth => do
    let record ← value.record? ["id", "run", "lambda", "bindings"]
    let id ← record.required 0 digest?
    let run ← record.required 1 runId?
    let lambda ← record.required 2 (foreign? depth)
    let bindings ← record.required 3 (bindings? depth)
    pure { id, run, lambda, bindings := OrderedMap.sortedOfList Json.nameBefore bindings }

end RawJson

end TicketFlow
