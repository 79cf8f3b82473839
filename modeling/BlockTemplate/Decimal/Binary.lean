/-!
Binary numbers with a fixed number of bits: what a bit pattern stands for, and the number that is
nearest to a decimal fraction.
-/
namespace BlockTemplate

/-- The widths of the two fields that follow the sign bit. -/
structure BinaryFormat where
  exponentBits : Nat
  fractionBits : Nat
deriving DecidableEq, Repr

/-- A number read from its bits. A finite one is `mantissa * 2 ^ exponent` up to its sign. -/
inductive BinaryNumber
  | nan
  | infinite (negative : Bool)
  | finite (negative : Bool) (mantissa : Nat) (exponent : Int)
deriving DecidableEq, Repr

namespace BinaryFormat

def single : BinaryFormat := ⟨8, 23⟩

def double : BinaryFormat := ⟨11, 52⟩

def bias (f : BinaryFormat) : Nat := Nat.pow 2 (f.exponentBits - 1) - 1

/-- The exponent of the smallest numbers. -/
def minExponent (f : BinaryFormat) : Int := 1 - f.bias - f.fractionBits

def maxExponent (f : BinaryFormat) : Int := (f.bias : Int) - f.fractionBits

def ofBits (f : BinaryFormat) (bits : Nat) : BinaryNumber :=
  let fraction := bits % Nat.pow 2 f.fractionBits
  let biased := bits / Nat.pow 2 f.fractionBits % Nat.pow 2 f.exponentBits
  let negative := bits / Nat.pow 2 (f.fractionBits + f.exponentBits) % 2 == 1
  if biased = Nat.pow 2 f.exponentBits - 1 then
    if fraction = 0 then .infinite negative else .nan
  else if biased = 0 then .finite negative fraction f.minExponent
  else .finite negative (Nat.pow 2 f.fractionBits + fraction) (f.minExponent + (biased - 1))

/-- The quotient rounded to the nearest number, to an even one from halfway. -/
def divNearest (a b : Nat) : Nat :=
  let q := a / b
  let rest := 2 * (a % b)
  if rest < b ∨ (rest = b ∧ q % 2 = 0) then q else q + 1

/-- The number nearest to `a / b`, where both are positive. -/
def nearestRatio (f : BinaryFormat) (negative : Bool) (a b : Nat) : BinaryNumber :=
  let guess : Int := (a.log2 : Int) - b.log2 - f.fractionBits
  let scaled (q : Int) : Nat × Nat := (a * Nat.pow 2 (-q).toNat, b * Nat.pow 2 q.toNat)
  let (x, y) := scaled guess
  let fitting := if Nat.pow 2 f.fractionBits * y ≤ x then guess else guess - 1
  let q := max fitting f.minExponent
  let (x, y) := scaled q
  let m := divNearest x y
  let (m, q) := if m = Nat.pow 2 (f.fractionBits + 1) then (m / 2, q + 1) else (m, q)
  if q > f.maxExponent then .infinite negative else .finite negative m q

/-- The number nearest to `digits * 10 ^ power`. Powers that are out of reach for the format are
told by the number of digits alone, since ten is more than eight. -/
def nearest (f : BinaryFormat) (negative : Bool) (digits : Nat) (power : Int) : BinaryNumber :=
  let places := (Nat.toDigits 10 digits).length + power
  if digits = 0 ∨ 3 * places < f.minExponent then .finite negative 0 f.minExponent
  else if 3 * (places - 1) > f.bias then .infinite negative
  else f.nearestRatio negative (digits * Nat.pow 10 power.toNat) (Nat.pow 10 (-power).toNat)

end BinaryFormat
end BlockTemplate
