/-! # Rounding to binary floating point

A binary format holds the numbers `m * 2 ^ k` whose significand `m` has a bounded number of bits and
whose exponent `k` is bounded below. A magnitude is kept as its bit pattern, so that the next larger
number is the next larger pattern, and rounding is done on exact quotients of natural numbers.
-/

namespace EcatDevice

def twoPower (n : Nat) : Nat :=
  Nat.pow 2 n

def tenPower (n : Nat) : Nat :=
  Nat.pow 10 n

structure BinaryFormat where
  /-- Stored bits of the significand. -/
  fractionBits : Nat
  /-- The smallest positive number is `2 ^ (-lowest)`. -/
  lowest : Nat
  /-- Pattern of infinity; every finite magnitude has a smaller one. -/
  infinity : Nat

namespace BinaryFormat

def binary64 : BinaryFormat :=
  { fractionBits := 52, lowest := 1074, infinity := 0x7ff0000000000000 }

def binary32 : BinaryFormat :=
  { fractionBits := 23, lowest := 149, infinity := 0x7f800000 }

end BinaryFormat

/-- The natural number nearest to `num / den`; a half goes to the even neighbour. -/
def roundQuotient (num den : Nat) : Nat :=
  let quotient := num / den
  let twice := 2 * (num % den)
  if twice < den ∨ (twice = den ∧ quotient % 2 = 0) then quotient else quotient + 1

/-- A nonnegative number `num / den * 2 ^ exponent`, scaled to an exact quotient. -/
def scaleByTwo (num den : Nat) (exponent : Int) : Nat × Nat :=
  (num * twoPower exponent.toNat, den * twoPower (-exponent).toNat)

/-- The exponent `e` with `2 ^ e ≤ num / den < 2 ^ (e + 1)`, for positive `num` and `den`. -/
def quotientLog2 (num den : Nat) : Int :=
  let guess : Int := (num.log2 : Int) - den.log2
  let (num', den') := scaleByTwo num den (-guess)
  if den' ≤ num' then guess else guess - 1

/-- Pattern of the number of the format nearest to `num / den`; a half goes to the even pattern, and
what lies beyond the largest finite number becomes infinity. -/
def BinaryFormat.round (format : BinaryFormat) (num den : Nat) : Nat :=
  if num = 0 then 0
  else
    let exponent := max (quotientLog2 num den - format.fractionBits) (-format.lowest)
    let (num', den') := scaleByTwo num den (-exponent)
    let pattern :=
      (exponent + format.lowest).toNat * twoPower format.fractionBits + roundQuotient num' den'
    min pattern format.infinity

/-- Significand and exponent of a finite pattern: it stands for `m * 2 ^ k`. -/
def BinaryFormat.decode (format : BinaryFormat) (pattern : Nat) : Nat × Int :=
  let exponent := pattern / twoPower format.fractionBits
  let fraction := pattern % twoPower format.fractionBits
  if exponent = 0 then (fraction, -(format.lowest : Int))
  else (fraction + twoPower format.fractionBits, (exponent : Int) - 1 - format.lowest)

end EcatDevice
