import TicketFlow.Digest.Sha256
import TicketFlow.Text.Bytes
import TicketFlow.Text.Hex
import TicketFlow.Text.Quoted

namespace TicketFlow

/-! Content addresses: thirty-two bytes, written as a marked hexadecimal text. -/

structure Digest where
  bytes : List UInt8
  length_bytes : bytes.length = 32
deriving DecidableEq, Repr

namespace Digest

theorem length_zeros : (List.replicate 32 (0 : UInt8)).length = 32 :=
  List.length_replicate

def mark : String := "sha256:"

def ofBytes (content : List UInt8) : Digest :=
  ⟨Sha256.digest content, Sha256.length_digest content⟩

def text (digest : Digest) : String :=
  mark ++ Hex.text digest.bytes

def short (digest : Digest) : String :=
  Hex.text (digest.bytes.take 6)

/-- The short form as diagnostics name it. -/
def label (digest : Digest) : String :=
  "Hash(" ++ digest.short ++ ")"

inductive ParseError where
  | missingMark
  | badDigits (fault : Hex.Fault)
deriving DecidableEq, Repr

def faultMessage : Hex.Fault → String
  | .oddLength => "Odd number of digits"
  | .wrongLength => "Invalid string length"
  | .badDigit byte position =>
      "Invalid character " ++ Text.quoteByte byte ++ " at position " ++ toString position

def ParseError.message : ParseError → String
  | .missingMark => "digest must start with '" ++ mark ++ "'"
  | .badDigits fault => "digest is not 64 hex digits: " ++ faultMessage fault

/-- The bytes of a text behind the mark, or nothing if it does not start with it. -/
def afterMark : List UInt8 → List UInt8 → Option (List UInt8)
  | [], rest => some rest
  | _ :: _, [] => none
  | expected :: marks, byte :: rest =>
      if expected = byte then afterMark marks rest else none

def parse (text : String) : Except ParseError Digest :=
  match afterMark (Text.bytes mark) (Text.bytes text) with
  | none => .error .missingMark
  | some digits =>
      match decoded : Hex.decodeExactly 32 digits with
      | .error fault => .error (.badDigits fault)
      | .ok bytes => .ok ⟨bytes, Hex.length_of_decodeExactly decoded⟩

end Digest

end TicketFlow
