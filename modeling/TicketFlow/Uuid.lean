import TicketFlow.Text.Bytes
import TicketFlow.Text.Hex

namespace TicketFlow

/-! Universally unique identifiers: sixteen bytes and their text forms.

A uuid is written in groups of 8-4-4-4-12 lower-case digits.  It is read from
that form, from the bare 32 digits, from the grouped form in braces, and from
the grouped form behind `urn:uuid:`, all of it in either letter case.
-/

structure Uuid where
  bytes : List UInt8
  length_bytes : bytes.length = 16
deriving DecidableEq, Repr

namespace Uuid

/-- The identifier whose bytes are all zero. -/
def nil : Uuid :=
  ⟨List.replicate 16 0, rfl⟩

def text (uuid : Uuid) : String :=
  Hex.text (uuid.bytes.take 4) ++ "-" ++ Hex.text ((uuid.bytes.drop 4).take 2) ++
    "-" ++ Hex.text ((uuid.bytes.drop 6).take 2) ++ "-" ++
    Hex.text ((uuid.bytes.drop 8).take 2) ++ "-" ++ Hex.text (uuid.bytes.drop 10)

def ofBytes? (bytes : List UInt8) : Option Uuid :=
  if sized : bytes.length = 16 then some ⟨bytes, sized⟩ else none

def ofDigits? (digits : List UInt8) : Option Uuid :=
  (Hex.decode? digits).bind ofBytes?

/-- Splits the grouped form of 36 bytes at its four hyphens. -/
def ofGroups? (grouped : List UInt8) : Option Uuid :=
  let hyphen : UInt8 := 45
  if grouped.length = 36 ∧ grouped[8]? = some hyphen ∧ grouped[13]? = some hyphen ∧
      grouped[18]? = some hyphen ∧ grouped[23]? = some hyphen then
    ofDigits? (grouped.take 8 ++ (grouped.drop 9).take 4 ++ (grouped.drop 14).take 4 ++
      (grouped.drop 19).take 4 ++ grouped.drop 24)
  else none

def openBrace : UInt8 := 123

def closeBrace : UInt8 := 125

def urn : List UInt8 := Text.bytes "urn:uuid:"

def lowerCase (byte : UInt8) : UInt8 :=
  if 65 ≤ byte ∧ byte ≤ 90 then byte + 32 else byte

def parse? (text : String) : Option Uuid :=
  let bytes := Text.bytes text
  if bytes.length = 32 then ofDigits? bytes
  else if bytes.length = 36 then ofGroups? bytes
  else if bytes.length = 38 then
    if bytes.take 1 = [openBrace] ∧ bytes.drop 37 = [closeBrace] then
      ofGroups? ((bytes.drop 1).take 36) else none
  else if bytes.length = 45 then
    if (bytes.take 9).map lowerCase = urn then ofGroups? (bytes.drop 9) else none
  else none

end Uuid

end TicketFlow
