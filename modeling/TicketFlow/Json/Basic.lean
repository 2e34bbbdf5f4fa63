import TicketFlow.Data.Binary64
import TicketFlow.Data.OrderedMap

namespace TicketFlow

/-! JSON values and their compact text.

Whole numbers and floating point numbers are told apart: `1` and `1.0` are two
values with two texts.  The members of an object keep their order.
-/

namespace Json

inductive Number where
  | whole (value : Int)
  | float (value : Binary64)
deriving DecidableEq, Repr

end Json

inductive Json where
  | null
  | bool (value : Bool)
  | number (value : Json.Number)
  | string (value : String)
  | array (items : List Json)
  | object (members : List (String × Json))
deriving Repr, Inhabited

namespace Json

def nat (value : Nat) : Json :=
  .number (.whole value)

def strings (values : List String) : Json :=
  .array (values.map .string)

/-! ### Text -/

def Number.chars : Number → List Char
  | .whole value => (toString value).toList
  | .float value => value.chars

def hexPair (code : Nat) : List Char :=
  [Nat.digitChar (code / 16), Nat.digitChar (code % 16)]

/-- The quotation mark, the backslash and the controls below U+0020 are
escaped, nothing else. -/
def escape (c : Char) : List Char :=
  let code := c.toNat
  if code = 0x22 then ['\\', c]
  else if code = 0x5c then ['\\', c]
  else if code = 0x08 then ['\\', 'b']
  else if code = 0x0c then ['\\', 'f']
  else if code = 0x0a then ['\\', 'n']
  else if code = 0x0d then ['\\', 'r']
  else if code = 0x09 then ['\\', 't']
  else if code < 0x20 then ['\\', 'u', '0', '0'] ++ hexPair code
  else [c]

def quotation : Char := Char.ofNat 0x22

def stringChars (text : String) : List Char :=
  quotation :: (text.toList.flatMap escape ++ [quotation])

def separated (separator : Char) : List (List Char) → List Char
  | [] => []
  | [last] => last
  | first :: second :: rest => first ++ separator :: separated separator (second :: rest)

mutual

def chars : Json → List Char
  | .null => ['n', 'u', 'l', 'l']
  | .bool true => ['t', 'r', 'u', 'e']
  | .bool false => ['f', 'a', 'l', 's', 'e']
  | .number value => value.chars
  | .string value => stringChars value
  | .array items => '[' :: (separated ',' (itemChars items) ++ [']'])
  | .object members => '{' :: (separated ',' (memberChars members) ++ ['}'])
termination_by structural value => value

def itemChars : List Json → List (List Char)
  | [] => []
  | item :: rest => item.chars :: itemChars rest
termination_by structural items => items

def memberChars : List (String × Json) → List (List Char)
  | [] => []
  | (name, value) :: rest => (stringChars name ++ ':' :: value.chars) :: memberChars rest
termination_by structural members => members

end

def text (value : Json) : String :=
  String.ofList value.chars

/-! ### Order -/

def nameBefore (left right : String) : Bool :=
  decide (left < right)

end Json

end TicketFlow
