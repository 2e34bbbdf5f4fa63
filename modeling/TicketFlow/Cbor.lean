import TicketFlow.Json.Basic
import TicketFlow.Text.Bytes

namespace TicketFlow

/-! Canonical CBOR.

One value has one encoding: heads and floating point numbers are as short as
they can be, every length is definite, and the entries of a map come in the
order of their names, shorter names first and names of one length by bytes.
-/

inductive Cbor where
  | null
  | bool (value : Bool)
  | unsigned (value : Nat)
  | negative (value : Nat)
  | float (value : Binary64)
  | bytes (value : List UInt8)
  | text (value : String)
  | array (items : List Cbor)
  | map (entries : List (String × Cbor))
deriving Repr, Inhabited

namespace Cbor

/-- The lowest `count` bytes of a number, the highest first. -/
def bigEndian : Nat → Nat → List UInt8
  | 0, _ => []
  | count + 1, value => bigEndian count (value / 256) ++ [UInt8.ofNat value]

/-- A major type with its argument, in the shortest of the five forms. -/
def head (major argument : Nat) : List UInt8 :=
  let lead (low : Nat) : UInt8 := UInt8.ofNat (major * 32 + low)
  if argument < 24 then [lead argument]
  else if argument < UInt8.size then lead 24 :: bigEndian 1 argument
  else if argument < UInt16.size then lead 25 :: bigEndian 2 argument
  else if argument < UInt32.size then lead 26 :: bigEndian 4 argument
  else lead 27 :: bigEndian 8 argument

def textBytes (value : String) : List UInt8 :=
  let content := Text.bytes value
  head 3 content.length ++ content

/-- The shortest of the three formats that holds the number. -/
def floatBytes (value : Binary64) : List UInt8 :=
  match value.narrow? Binary64.binary16 with
  | some pattern => 0xf9 :: bigEndian 2 pattern
  | none =>
      match value.narrow? Binary64.binary32 with
      | some pattern => 0xfa :: bigEndian 4 pattern
      | none => 0xfb :: bigEndian 8 value.bits.toNat

def bytesBefore : List UInt8 → List UInt8 → Bool
  | _, [] => false
  | [], _ :: _ => true
  | left :: lefts, right :: rights =>
      if left = right then bytesBefore lefts rights else decide (left < right)

/-- Shorter names first, and names of one length in the order of their bytes. -/
def nameBefore (left right : String) : Bool :=
  let lefts := Text.bytes left
  let rights := Text.bytes right
  if lefts.length = rights.length then bytesBefore lefts rights else
    decide (lefts.length < rights.length)

mutual

def encode : Cbor → List UInt8
  | .null => [0xf6]
  | .bool false => [0xf4]
  | .bool true => [0xf5]
  | .unsigned value => head 0 value
  | .negative value => head 1 value
  | .float value => floatBytes value
  | .bytes value => head 2 value.length ++ value
  | .text value => textBytes value
  | .array items => head 4 items.length ++ encodeItems items
  | .map entries => head 5 entries.length ++ encodeEntries entries
termination_by structural value => value

def encodeItems : List Cbor → List UInt8
  | [] => []
  | item :: rest => item.encode ++ encodeItems rest
termination_by structural items => items

def encodeEntries : List (String × Cbor) → List UInt8
  | [] => []
  | (name, value) :: rest => textBytes name ++ value.encode ++ encodeEntries rest
termination_by structural entries => entries

end

/-- A map with its entries in canonical order; of a repeated name the last value stays. -/
def sortedMap (entries : List (String × Cbor)) : Cbor :=
  .map (OrderedMap.sortedOfList nameBefore entries)

def ofNumber : Json.Number → Cbor
  | .whole value =>
      if 0 ≤ value then .unsigned value.toNat else .negative (-1 - value).toNat
  | .float value => .float value

mutual

def ofJson : Json → Cbor
  | .null => .null
  | .bool value => .bool value
  | .number value => ofNumber value
  | .string value => .text value
  | .array items => .array (ofItems items)
  | .object members => sortedMap (ofMembers members)
termination_by structural value => value

def ofItems : List Json → List Cbor
  | [] => []
  | item :: rest => ofJson item :: ofItems rest
termination_by structural items => items

def ofMembers : List (String × Json) → List (String × Cbor)
  | [] => []
  | (name, value) :: rest => (name, ofJson value) :: ofMembers rest
termination_by structural members => members

end

def selfDescribed : List UInt8 :=
  [0xd9, 0xd9, 0xf7]

def canonical (value : Cbor) : List UInt8 :=
  selfDescribed ++ value.encode

end Cbor

end TicketFlow
