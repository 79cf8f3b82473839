import BlockTemplate.Decimal.Binary
import BlockTemplate.Text.Basic

/-!
The shortest decimal text of a binary number: of all decimal fractions that are read as the
number, one with the fewest digits, and of these the nearest.
-/
namespace BlockTemplate

/-- A positive number `value * 2 ^ exponent` and how far, in the same unit, one may go below and
above it and still be nearest to it. A closed cell has its ends in it. -/
structure Cell where
  value : Nat
  below : Nat
  above : Nat
  exponent : Int
  closed : Bool
deriving DecidableEq, Repr

namespace Cell

/-- The cell of a finite number other than zero. The gap below a power of two is half as wide as
the one above, except at the least exponent. -/
def ofFinite (f : BinaryFormat) (mantissa : Nat) (exponent : Int) : Cell :=
  let narrow := mantissa = Nat.pow 2 f.fractionBits ∧ f.minExponent < exponent
  ⟨4 * mantissa, if narrow then 1 else 2, 2, exponent - 2, mantissa % 2 == 0⟩

/-- The sizes of the unit of the cell and of `10 ^ power`, in a common measure. -/
def units (c : Cell) (power : Int) : Nat × Nat :=
  (Nat.pow 2 c.exponent.toNat * Nat.pow 10 (-power).toNat,
    Nat.pow 10 power.toNat * Nat.pow 2 (-c.exponent).toNat)

/-- Whether `digits * 10 ^ power` is in the cell. -/
def holds (c : Cell) (power : Int) (digits : Nat) : Bool :=
  let (unit, step) := c.units power
  let low := (c.value - c.below) * unit
  let high := (c.value + c.above) * unit
  if c.closed then low ≤ digits * step && digits * step ≤ high
  else low < digits * step && digits * step < high

/-- The multiple of `10 ^ power` in the cell that is nearest to its value, from halfway the
greater one. -/
def multiple? (c : Cell) (power : Int) : Option Nat :=
  let (unit, step) := c.units power
  let digits := c.value * unit / step
  match c.holds power digits, c.holds power (digits + 1) with
  | true, true =>
    some (if 2 * (c.value * unit) < (2 * digits + 1) * step then digits else digits + 1)
  | true, false => some digits
  | false, true => some (digits + 1)
  | false, false => none

/-- Tries one power of ten after the other, each time the next smaller one. -/
def searchFrom (c : Cell) (power : Int) : Nat → Nat × Int
  | 0 => (c.value * (c.units power).1 / (c.units power).2, power)
  | tries + 1 =>
    match c.multiple? power with
    | some digits => (digits, power)
    | none => searchFrom c (power - 1) tries

/-- Digits and power of ten of the shortest decimal fraction in the cell. The first power tried
is above the value, and seventeen digits are enough for sixty-four bits. -/
def shortest (c : Cell) : Nat × Int :=
  c.searchFrom ((((c.value + c.above).log2 + 1 : Int) + c.exponent) * 30103 / 100000 + 1) 20

end Cell

namespace Decimal

def dropZeros (t : Text) : Text := (t.reverse.dropWhile (· == '0')).reverse

/-- `digits * 10 ^ power` written out, without an exponent and without zeros at the end of the
fraction. -/
def positional (digits : Nat) (power : Int) : Text :=
  match power with
  | .ofNat n => Text.ofNat digits ++ (if digits = 0 then [] else List.replicate n '0')
  | .negSucc n =>
    let places := n + 1
    let whole := Text.ofNat (digits / Nat.pow 10 places)
    let part := Text.ofNat (digits % Nat.pow 10 places)
    let fraction := dropZeros (List.replicate (places - part.length) '0' ++ part)
    if fraction.isEmpty then whole else whole ++ '.' :: fraction

def signed (negative : Bool) (t : Text) : Text := if negative then '-' :: t else t

end Decimal

/-- The shortest text that is read as the number. -/
def BinaryNumber.text (f : BinaryFormat) : BinaryNumber → Text
  | nan => "NaN".toList
  | infinite negative => Decimal.signed negative "inf".toList
  | finite negative mantissa exponent =>
    Decimal.signed negative <|
      if mantissa = 0 then ['0']
      else
        let (digits, power) := (Cell.ofFinite f mantissa exponent).shortest
        Decimal.positional digits power

end BlockTemplate
