import TicketFlow.Json.Basic
import TicketFlow.Text.Bytes

namespace TicketFlow

/-! JSON texts as trees.

`RawJson` is what a text says before its numbers are given a size and its
repeated member names a meaning.  Reading a tree off a text checks the grammar
only; the readers of values decide what each part has to be.
-/

namespace RawJson

structure Numeral where
  negative : Bool
  whole : List Nat
  fraction : List Nat
  /-- Sign and digits of the exponent part, if there is one. -/
  exponent : Option (Bool × List Nat)
  pointed : Bool
deriving DecidableEq, Repr

end RawJson

inductive RawJson where
  | null
  | bool (value : Bool)
  | number (numeral : RawJson.Numeral)
  | string (value : String)
  | array (items : List RawJson)
  | object (members : List (String × RawJson))
  /-- A string with an unpaired surrogate escape, or an object with such a member name.
  It may be passed over, but it has no value. -/
  | unreadable
deriving Repr, Inhabited

namespace RawJson

/-! ### Grammar -/

def isSpace (c : Char) : Bool :=
  c = ' ' || c = '\t' || c = '\n' || c = '\r'

def skipSpace (chars : List Char) : List Char :=
  chars.dropWhile isSpace

def digit? (c : Char) : Option Nat :=
  if '0' ≤ c ∧ c ≤ '9' then some (c.toNat - 48) else none

def hexDigit? (c : Char) : Option Nat :=
  if '0' ≤ c ∧ c ≤ '9' then some (c.toNat - 48)
  else if 'a' ≤ c ∧ c ≤ 'f' then some (c.toNat - 87)
  else if 'A' ≤ c ∧ c ≤ 'F' then some (c.toNat - 55)
  else none

def digits : List Char → List Nat × List Char
  | [] => ([], [])
  | c :: rest =>
      match digit? c with
      | some value => (value :: (digits rest).1, (digits rest).2)
      | none => ([], c :: rest)

/-- One unit of a string: a character, or half of an escaped pair. -/
inductive Piece where
  | char (c : Char)
  | surrogate (unit : Nat)
deriving DecidableEq, Repr

def pieceOfUnit (unit : Nat) : Piece :=
  if 0xd800 ≤ unit ∧ unit < 0xe000 then .surrogate unit else .char (Char.ofNat unit)

def escaped? (c : Char) : Option Char :=
  if c = Char.ofNat 0x22 ∨ c = '\\' ∨ c = '/' then some c
  else if c = 'b' then some (Char.ofNat 0x08)
  else if c = 'f' then some (Char.ofNat 0x0c)
  else if c = 'n' then some '\n'
  else if c = 'r' then some '\r'
  else if c = 't' then some '\t'
  else none

def pieces : List Char → Option (List Piece × List Char)
  | [] => none
  | '\\' :: 'u' :: a :: b :: c :: d :: rest =>
      match hexDigit? a, hexDigit? b, hexDigit? c, hexDigit? d, pieces rest with
      | some w, some x, some y, some z, some (tail, after) =>
          some (pieceOfUnit (((w * 16 + x) * 16 + y) * 16 + z) :: tail, after)
      | _, _, _, _, _ => none
  | '\\' :: c :: rest =>
      match escaped? c, pieces rest with
      | some plain, some (tail, after) => some (.char plain :: tail, after)
      | _, _ => none
  | c :: rest =>
      if c = Json.quotation then some ([], rest)
      else if c = '\\' ∨ c.toNat < 0x20 then none
      else (pieces rest).map fun found => (.char c :: found.1, found.2)

/-- Joins a leading surrogate to the trailing one behind it; a half without its
partner has no character. -/
def joinPieces : List Piece → Option (List Char)
  | [] => some []
  | .char c :: rest => (joinPieces rest).map (c :: ·)
  | .surrogate lead :: .surrogate trail :: rest =>
      if lead < 0xdc00 ∧ 0xdc00 ≤ trail then
        (joinPieces rest).map
          (Char.ofNat (0x10000 + (lead - 0xd800) * 0x400 + (trail - 0xdc00)) :: ·)
      else none
  | .surrogate _ :: _ => none

def stringBody (chars : List Char) : Option (Option String × List Char) :=
  (pieces chars).map fun found => ((joinPieces found.1).map String.ofList, found.2)

def exponentPart : List Char → Option (Option (Bool × List Nat) × List Char)
  | c :: rest =>
      if c = 'e' ∨ c = 'E' then
        let signed := match rest with
          | '+' :: after => (false, after)
          | '-' :: after => (true, after)
          | after => (false, after)
        match digits signed.2 with
        | ([], _) => none
        | (found, after) => some (some (signed.1, found), after)
      else some (none, c :: rest)
  | [] => some (none, [])

/-- The fraction of a number, if one begins here: whether there is a point, and its digits. -/
def fractionPart : List Char → Option ((Bool × List Nat) × List Char)
  | '.' :: rest =>
      match digits rest with
      | ([], _) => none
      | (found, after) => some ((true, found), after)
  | rest => some ((false, []), rest)

def unsigned (negative : Bool) (chars : List Char) : Option (Numeral × List Char) :=
  match digits chars with
  | ([], _) => none
  | (0 :: _ :: _, _) => none
  | (whole, rest) => do
      let (fraction, rest) ← fractionPart rest
      let (exponent, rest) ← exponentPart rest
      pure (⟨negative, whole, fraction.2, exponent, fraction.1⟩, rest)

def numeral : List Char → Option (Numeral × List Char)
  | '-' :: rest => unsigned true rest
  | rest => unsigned false rest

def ofMembers (members : List (Option String × RawJson)) : RawJson :=
  match members.mapM (fun entry => entry.1.map fun name => (name, entry.2)) with
  | some named => .object named
  | none => .unreadable

mutual

/-- Reads one value at the front of a text.  Each call consumes a character or is the
second of two calls without one, so twice the length of the text is enough fuel. -/
def value : Nat → List Char → Option (RawJson × List Char)
  | 0, _ => none
  | fuel + 1, chars =>
      match skipSpace chars with
      | 'n' :: 'u' :: 'l' :: 'l' :: rest => some (.null, rest)
      | 't' :: 'r' :: 'u' :: 'e' :: rest => some (.bool true, rest)
      | 'f' :: 'a' :: 'l' :: 's' :: 'e' :: rest => some (.bool false, rest)
      | '[' :: rest =>
          match skipSpace rest with
          | ']' :: after => some (.array [], after)
          | inside => (items fuel inside).map fun found => (.array found.1, found.2)
      | '{' :: rest =>
          match skipSpace rest with
          | '}' :: after => some (.object [], after)
          | inside => (members fuel inside).map fun found => (ofMembers found.1, found.2)
      | c :: rest =>
          if c = Json.quotation then
            (stringBody rest).map fun found =>
              ((found.1.map .string).getD .unreadable, found.2)
          else (numeral (c :: rest)).map fun found => (.number found.1, found.2)
      | [] => none

def items : Nat → List Char → Option (List RawJson × List Char)
  | 0, _ => none
  | fuel + 1, chars =>
      match value fuel chars with
      | none => none
      | some (item, rest) =>
          match skipSpace rest with
          | ',' :: after => (items fuel after).map fun found => (item :: found.1, found.2)
          | ']' :: after => some ([item], after)
          | _ => none

def members : Nat → List Char → Option (List (Option String × RawJson) × List Char)
  | 0, _ => none
  | fuel + 1, chars =>
      match skipSpace chars with
      | c :: inside =>
          if c = Json.quotation then
            match stringBody inside with
            | none => none
            | some (name, rest) =>
                match skipSpace rest with
                | ':' :: rest =>
                    match value fuel rest with
                    | none => none
                    | some (item, rest) =>
                        match skipSpace rest with
                        | ',' :: after =>
                            (members fuel after).map fun found =>
                              ((name, item) :: found.1, found.2)
                        | '}' :: after => some ([(name, item)], after)
                        | _ => none
                | _ => none
          else none
      | [] => none

end

def ofChars? (chars : List Char) : Option RawJson :=
  match value (2 * chars.length + 2) chars with
  | some (found, rest) => if (skipSpace rest).isEmpty then some found else none
  | none => none

def ofText? (text : String) : Option RawJson :=
  ofChars? text.toList

/-! ### Numbers -/

namespace Numeral

def maxSignificand : Nat := UInt64.size - 1

/-- Takes digits into a significand while it fits into 64 bits: the significand, the
number of digits taken, and the number of digits left. -/
def absorb : List Nat → Nat → Nat × Nat × Nat
  | [], significand => (significand, 0, 0)
  | digit :: rest, significand =>
      let next := significand * 10 + digit
      if next ≤ maxSignificand then
        let found := absorb rest next
        (found.1, found.2.1 + 1, found.2.2)
      else (significand, 0, rest.length + 1)

def natOfDigits (digits : List Nat) : Nat :=
  digits.foldl (fun total digit => total * 10 + digit) 0

def signed (negative : Bool) (size : Nat) : Int :=
  if negative then -(size : Int) else size

def whole? (numeral : Numeral) : Option Int :=
  if numeral.pointed ∨ numeral.exponent.isSome then none
  else some (signed numeral.negative (natOfDigits numeral.whole))

def nat? (numeral : Numeral) : Option Nat :=
  if numeral.negative then none
  else (numeral.whole?.map Int.toNat).filter (· ≤ maxSignificand)

def exponentValue : Option (Bool × List Nat) → Int
  | none => 0
  | some (negative, written) => signed negative (natOfDigits written)

/-- The number as a floating point number.  Digits that the significand does
not hold count only towards the exponent when they stand before the point, and
not at all behind it. -/
def float? (numeral : Numeral) : Option Binary64 :=
  let before := absorb numeral.whole 0
  let behind := absorb numeral.fraction before.1
  let exponent : Int := (before.2.2 : Int) - behind.2.1 + exponentValue numeral.exponent
  (Binary64.ofDecimal? behind.1 exponent).map (Binary64.ofPattern numeral.negative)

/-- A whole number of 64 bits, signed or not, stays whole; `-0` and all
others are floating point. -/
def number? (numeral : Numeral) : Option Json.Number :=
  match numeral.whole? with
  | some size =>
      if numeral.negative then
        if size < 0 ∧ Int64.minValue.toInt ≤ size then some (.whole size) else
          numeral.float?.map .float
      else if size ≤ maxSignificand then some (.whole size)
      else numeral.float?.map .float
  | none => numeral.float?.map .float

end Numeral

/-! ### Values -/

/-- Containers may nest this deeply in a value that is read. -/
def depthLimit : Nat := 127

mutual

/-- The value of a tree whose containers nest at most `depth` deep.  The members of an
object come in the order of their names, and of a repeated name the last value stays. -/
def toJson? : Nat → RawJson → Option Json
  | _, .null => some .null
  | _, .bool value => some (.bool value)
  | _, .number numeral => numeral.number?.map .number
  | _, .string value => some (.string value)
  | 0, .array _ => none
  | depth + 1, .array items => (itemsToJson? depth items).map .array
  | 0, .object _ => none
  | depth + 1, .object members =>
      (membersToJson? depth members).map fun found =>
        .object (OrderedMap.sortedOfList Json.nameBefore found)
  | _, .unreadable => none
termination_by structural _ tree => tree

def itemsToJson? : Nat → List RawJson → Option (List Json)
  | _, [] => some []
  | depth, item :: rest =>
      match item.toJson? depth, itemsToJson? depth rest with
      | some value, some values => some (value :: values)
      | _, _ => none
termination_by structural _ items => items

def membersToJson? : Nat → List (String × RawJson) → Option (List (String × Json))
  | _, [] => some []
  | depth, (name, item) :: rest =>
      match item.toJson? depth, membersToJson? depth rest with
      | some value, some values => some ((name, value) :: values)
      | _, _ => none
termination_by structural _ members => members

end

end RawJson

def Json.ofText? (text : String) : Option Json :=
  (RawJson.ofText? text).bind (RawJson.toJson? RawJson.depthLimit)

end TicketFlow
