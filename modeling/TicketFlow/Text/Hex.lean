namespace TicketFlow.Hex

/-! Hexadecimal text of bytes.

Writing uses two lower-case digits a byte, the high half first.  Reading takes
either letter case, and works on bytes so that a fault is reported at a byte
position of the text.
-/

def digit (value : UInt8) : Char :=
  if value < 10 then Char.ofNat (48 + value.toNat) else Char.ofNat (87 + value.toNat)

def ofByte (byte : UInt8) : List Char :=
  [digit (byte >>> 4), digit (byte &&& 0x0f)]

def encode (bytes : List UInt8) : List Char :=
  bytes.flatMap ofByte

def text (bytes : List UInt8) : String :=
  String.ofList (encode bytes)

def value? (byte : UInt8) : Option UInt8 :=
  if 48 ≤ byte ∧ byte ≤ 57 then some (byte - 48)
  else if 97 ≤ byte ∧ byte ≤ 102 then some (byte - 87)
  else if 65 ≤ byte ∧ byte ≤ 70 then some (byte - 55)
  else none

inductive Fault where
  /-- The text has an odd number of bytes. -/
  | oddLength
  /-- The text has an even number of bytes, but not twice the number asked for. -/
  | wrongLength
  /-- The byte at this position is no digit, and none before it fails. -/
  | badDigit (byte : UInt8) (position : Nat)
deriving DecidableEq, Repr

/-- Reads digits in pairs; `position` is the place of the first byte in the whole text. -/
def decodePairs : List UInt8 → Nat → Except Fault (List UInt8)
  | high :: low :: rest, position =>
      match value? high, value? low with
      | some first, some second =>
          (decodePairs rest (position + 2)).map fun tail => (first <<< 4 ||| second) :: tail
      | none, _ => .error (.badDigit high position)
      | some _, none => .error (.badDigit low (position + 1))
  | [last], position => .error (.badDigit last position)
  | [], _ => .ok []

/-- Reads exactly `size` bytes.  Both tests of the length come before
any digit is looked at. -/
def decodeExactly (size : Nat) (digits : List UInt8) : Except Fault (List UInt8) :=
  if digits.length % 2 ≠ 0 then .error .oddLength
  else if digits.length ≠ 2 * size then .error .wrongLength
  else decodePairs digits 0

/-- Reads any even number of digits, with no word on what is wrong with other texts. -/
def decode? (digits : List UInt8) : Option (List UInt8) :=
  if digits.length % 2 = 0 then (decodePairs digits 0).toOption else none

theorem length_of_decodePairs {digits : List UInt8} {position : Nat}
    {read : List UInt8} (decoded : decodePairs digits position = .ok read) :
    digits.length = 2 * read.length := by
  fun_induction decodePairs digits position generalizing read with
  | case1 high low rest position first second _ _ ih =>
      cases tail : decodePairs rest (position + 2) with
      | error fault => simp [tail, Except.map] at decoded
      | ok bytes =>
          simp only [tail, Except.map, Except.ok.injEq] at decoded
          subst decoded
          simp [ih tail]
          omega
  | case2 => cases decoded
  | case3 => cases decoded
  | case4 => cases decoded
  | case5 => cases decoded; rfl

theorem length_of_decodeExactly {size : Nat} {digits read : List UInt8}
    (decoded : decodeExactly size digits = .ok read) : read.length = size := by
  simp only [decodeExactly] at decoded
  split at decoded
  · cases decoded
  · split at decoded
    · cases decoded
    · rename_i _ length
      have := length_of_decodePairs decoded
      omega

end TicketFlow.Hex
