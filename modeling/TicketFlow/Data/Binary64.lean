namespace TicketFlow

/-! Binary floating point numbers of 64 bits, on their bit patterns.

Every finite number is `(-1)^sign · m · 2^q` with natural `m`; the operations
below compute with `m` and `q` exactly and round once, to the nearest number
and on a tie to the even one.  Nothing here refers to machine arithmetic.
-/

structure Binary64 where
  bits : UInt64
deriving DecidableEq, Repr

namespace Binary64

/-- A number without its sign: `mantissa · 2^exponent`. -/
structure Magnitude where
  mantissa : Nat
  exponent : Int
deriving DecidableEq, Repr

def twoTo (power : Nat) : Nat :=
  Nat.pow 2 power

def tenTo (power : Nat) : Nat :=
  Nat.pow 10 power

def isNegative (x : Binary64) : Bool :=
  twoTo 63 ≤ x.bits.toNat

/-- The bit pattern without the sign; patterns are ordered as the numbers they stand for. -/
def pattern (x : Binary64) : Nat :=
  x.bits.toNat % twoTo 63

def magnitudeOfPattern (pattern : Nat) : Magnitude :=
  if pattern < twoTo 52 then ⟨pattern, -1074⟩
  else ⟨twoTo 52 + pattern % twoTo 52, (pattern / twoTo 52 : Nat) - 1075⟩

def magnitude (x : Binary64) : Magnitude :=
  magnitudeOfPattern x.pattern

def ofPattern (negative : Bool) (pattern : Nat) : Binary64 :=
  ⟨UInt64.ofNat (if negative then twoTo 63 + pattern else pattern)⟩

/-- Division to the nearest natural number; a tie goes to the even neighbour. -/
def divideToEven (numerator denominator : Nat) : Nat :=
  let quotient := numerator / denominator
  let twice := 2 * (numerator % denominator)
  if twice < denominator then quotient
  else if denominator < twice then quotient + 1
  else quotient + quotient % 2

/-- The fraction `numerator · 2^shift / denominator`, with the power on the
side where it is whole. -/
def scaled (numerator denominator : Nat) (shift : Int) : Nat × Nat :=
  if 0 ≤ shift then (numerator * twoTo shift.toNat, denominator)
  else (numerator, denominator * twoTo (-shift).toNat)

def leadingExponent (numerator denominator : Nat) : Int :=
  let guess : Int := (numerator.log2 : Int) - denominator.log2
  let compared := scaled numerator denominator (-guess)
  if compared.1 < compared.2 then guess - 1 else guess

/-- The pattern of the number nearest to a fraction, or nothing beyond the largest number. -/
def roundFraction? (numerator denominator : Nat) : Option Nat :=
  if numerator = 0 then some 0
  else
    let exponent := max (leadingExponent numerator denominator - 52) (-1074)
    let fraction := scaled numerator denominator (-exponent)
    let mantissa := divideToEven fraction.1 fraction.2
    let pattern := (exponent + 1074).toNat * twoTo 52 + mantissa
    if pattern < 2047 * twoTo 52 then some pattern else none

def powerOfTen? (power : Nat) : Option Nat :=
  roundFraction? (tenTo power) 1

def multiply? (left right : Nat) : Option Nat :=
  let l := magnitudeOfPattern left
  let r := magnitudeOfPattern right
  let fraction := scaled (l.mantissa * r.mantissa) 1 (l.exponent + r.exponent)
  roundFraction? fraction.1 fraction.2

def divide? (left right : Nat) : Option Nat :=
  let l := magnitudeOfPattern left
  let r := magnitudeOfPattern right
  let fraction := scaled l.mantissa r.mantissa (l.exponent - r.exponent)
  roundFraction? fraction.1 fraction.2

def divideByPower? (pattern power : Nat) : Option Nat :=
  (powerOfTen? power).bind (divide? pattern)

def largestPower : Nat := 308

/-- The number read from a decimal of at most 64 significant bits.

The significand is rounded first and then multiplied or divided once by a
rounded power of ten, so that the last place may differ from the nearest number;
below `10^(-308)` the division takes two steps.  There is no number beyond the
largest one, whatever the exponent of a zero significand. -/
def ofDecimal? (significand : Nat) (exponent : Int) : Option Nat :=
  (roundFraction? significand 1).bind fun start =>
    if start = 0 then some 0
    else if 0 ≤ exponent then
      if exponent ≤ largestPower then
        (powerOfTen? exponent.toNat).bind (multiply? start) else none
    else
      let power := (-exponent).toNat
      if power ≤ largestPower then divideByPower? start power
      else if power ≤ 2 * largestPower then
        (divideByPower? start largestPower).bind
          fun middle => divideByPower? middle (power - largestPower)
      else some 0

/-! ### Narrower formats -/

structure Format where
  precision : Nat
  leastPlace : Int
  largest : Int
  exponentBits : Nat
deriving DecidableEq, Repr

def binary16 : Format := ⟨11, -24, 15, 5⟩

def binary32 : Format := ⟨24, -149, 127, 8⟩

def stripTwos : Nat → Magnitude → Magnitude
  | 0, magnitude => magnitude
  | steps + 1, magnitude =>
      if magnitude.mantissa % 2 = 0 ∧ magnitude.mantissa ≠ 0 then
        stripTwos steps ⟨magnitude.mantissa / 2, magnitude.exponent + 1⟩
      else magnitude

/-- The bit pattern of a number in a narrower format that holds it exactly. -/
def narrow? (format : Format) (x : Binary64) : Option Nat :=
  let sign := if x.isNegative then twoTo (format.precision - 1 + format.exponentBits) else 0
  let number := stripTwos 53 x.magnitude
  if number.mantissa = 0 then some sign
  else
    let leading : Int := number.exponent + number.mantissa.log2
    let place := max (leading - (format.precision - 1)) format.leastPlace
    if place ≤ number.exponent ∧ leading ≤ format.largest then
      let mantissa := number.mantissa * twoTo (number.exponent - place).toNat
      some (sign + (place - format.leastPlace).toNat * twoTo (format.precision - 1) + mantissa)
    else none

/-! ### Shortest decimals -/

structure Decimal where
  digits : Nat
  exponent : Int
deriving DecidableEq, Repr

/-- The decimals that read back as a number: those between the midpoints to
its neighbours, in quarters of the unit in the last place, ends included
for an even mantissa. -/
structure Interval where
  low : Nat
  middle : Nat
  high : Nat
  exponent : Int
  closed : Bool
deriving DecidableEq, Repr

def interval (pattern : Nat) : Interval :=
  let number := magnitudeOfPattern pattern
  let below := if number.mantissa = twoTo 52 ∧ -1074 < number.exponent then 1 else 2
  ⟨4 * number.mantissa - below, 4 * number.mantissa, 4 * number.mantissa + 2,
    number.exponent - 2, number.mantissa % 2 = 0⟩

def onGrid (value : Nat) (twos tens : Int) : Nat × Nat :=
  let fraction := scaled value 1 twos
  if 0 ≤ tens then (fraction.1, fraction.2 * tenTo tens.toNat)
  else (fraction.1 * tenTo (-tens).toNat, fraction.2)

def Interval.holds (range : Interval) (digits : Nat) (tens : Int) : Bool :=
  let low := onGrid range.low range.exponent tens
  let high := onGrid range.high range.exponent tens
  if range.closed then low.1 ≤ digits * low.2 && digits * high.2 ≤ high.1
  else low.1 < digits * low.2 && digits * high.2 < high.1

/-- The nearer of the two neighbours on the grid of multiples of `10^tens` that read back. -/
def Interval.nearest? (range : Interval) (tens : Int) : Option Nat :=
  let value := onGrid range.middle range.exponent tens
  let lower := value.1 / value.2
  match range.holds lower tens, range.holds (lower + 1) tens with
  | true, true => some (divideToEven value.1 value.2)
  | true, false => some lower
  | false, true => some (lower + 1)
  | false, false => none

/-- The exponent of the leading decimal digit of a positive fraction,
found by search downwards. -/
def leadingTen : Nat → Int → Nat → Nat → Int
  | 0, power, _, _ => power
  | steps + 1, power, numerator, denominator =>
      let compared := if 0 ≤ power then (numerator, denominator * tenTo power.toNat)
        else (numerator * tenTo (-power).toNat, denominator)
      if compared.2 ≤ compared.1 then power else
        leadingTen steps (power - 1) numerator denominator

/-- The first grid, from coarse to fine, on which some point reads back. -/
def firstHit (range : Interval) : Nat → Int → Decimal
  | 0, tens => ⟨(range.nearest? tens).getD 0, tens⟩
  | finer + 1, tens =>
      match range.nearest? tens with
      | some digits => ⟨digits, tens⟩
      | none => firstHit range finer (tens - 1)

def Decimal.strip : Nat → Decimal → Decimal
  | 0, decimal => decimal
  | steps + 1, decimal =>
      if decimal.digits % 10 = 0 ∧ decimal.digits ≠ 0 then
        Decimal.strip steps ⟨decimal.digits / 10, decimal.exponent + 1⟩
      else decimal

/-- The decimal of fewest digits that reads back as a positive number; of
several, the nearest. -/
def shortest (pattern : Nat) : Decimal :=
  let range := interval pattern
  let fraction := scaled range.middle 1 range.exponent
  let leading := leadingTen 640 309 fraction.1 fraction.2
  Decimal.strip 20 (firstHit range 17 leading)

/-! ### Text -/

/-- The decimal point is written out up to this many places before and after it. -/
def placesBeforePoint : Int := 16

def placesAfterPoint : Int := 5

def zeros (count : Int) : List Char :=
  List.replicate count.toNat '0'

/-- A decimal exponent always has its sign. -/
def exponentChars (exponent : Int) : List Char :=
  (if exponent < 0 then '-' else '+') :: Nat.toDigits 10 exponent.natAbs

/-- Positional where the point is near, and with an exponent otherwise; a
whole number ends in `.0`. -/
def Decimal.chars (decimal : Decimal) : List Char :=
  let digits := Nat.toDigits 10 decimal.digits
  let point : Int := digits.length + decimal.exponent
  if 0 ≤ decimal.exponent ∧ point ≤ placesBeforePoint then
    digits ++ zeros decimal.exponent ++ ['.', '0']
  else if 0 < point ∧ point ≤ placesBeforePoint then
    digits.take point.toNat ++ '.' :: digits.drop point.toNat
  else if -placesAfterPoint < point ∧ point ≤ 0 then
    '0' :: '.' :: (zeros (-point) ++ digits)
  else
    let mantissa := match digits with
      | first :: second :: rest => first :: '.' :: second :: rest
      | short => short
    mantissa ++ 'e' :: exponentChars (point - 1)

def chars (x : Binary64) : List Char :=
  let body := if x.pattern = 0 then ['0', '.', '0'] else (shortest x.pattern).chars
  if x.isNegative then '-' :: body else body

end Binary64

end TicketFlow
