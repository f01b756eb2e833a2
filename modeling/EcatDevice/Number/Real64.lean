import EcatDevice.Number.Rounding

/-! # Real numbers

A real value is a 64-bit floating point number, kept as its bit pattern: not-a-number values with
different payloads stay apart, and so do the two zeros.
-/

namespace EcatDevice

/-- A 64-bit floating point number, by its bit pattern. -/
structure Real64 where
  bits : UInt64
  deriving DecidableEq, Repr, Inhabited

namespace Real64

def signBit : Nat := 0x8000000000000000

def isNegative (x : Real64) : Bool :=
  signBit ≤ x.bits.toNat

def magnitude (x : Real64) : Nat :=
  x.bits.toNat % signBit

def isNaN (x : Real64) : Bool :=
  BinaryFormat.binary64.infinity < x.magnitude

def isInfinite (x : Real64) : Bool :=
  x.magnitude == BinaryFormat.binary64.infinity

def isZero (x : Real64) : Bool :=
  x.magnitude == 0

/-- Equality of numbers: the two zeros are equal, and not-a-number equals nothing, not even
itself. -/
def equals (x y : Real64) : Bool :=
  !x.isNaN && !y.isNaN && (x.bits == y.bits || x.isZero && y.isZero)

def ofMagnitude (negative : Bool) (magnitude : Nat) : Real64 :=
  ⟨UInt64.ofNat (if negative then signBit + magnitude else magnitude)⟩

/-- The nearest number to an integer; a half goes to the even neighbour. -/
def ofInt (n : Int) : Real64 :=
  ofMagnitude (n < 0) (BinaryFormat.binary64.round n.natAbs 1)

/-- The nearest number to `digits * 10 ^ exponent`, negated on demand. `size` is the number of
decimal digits of `digits`; it bounds the powers that have to be computed: past 400 places on
either side the answer is infinity or zero. -/
def ofDecimal (negative : Bool) (digits size : Nat) (exponent : Int) : Real64 :=
  ofMagnitude negative <|
    if digits = 0 then 0
    else if 400 < exponent + size then BinaryFormat.binary64.infinity
    else if exponent + size < -400 then 0
    else BinaryFormat.binary64.round (digits * tenPower exponent.toNat) (tenPower (-exponent).toNat)

/-- Position of `x` in the total order of all bit patterns: negative before positive, and
not-a-number values outermost on either side. -/
def orderKey (x : Real64) : Int :=
  if x.isNegative then -(x.magnitude : Int) - 1 else x.magnitude

def compareTotal (x y : Real64) : Ordering :=
  compare x.orderKey y.orderKey

/-- Pattern of the nearest 32-bit number. A not-a-number value stays one, made quiet, with the
leading bits of its payload. -/
def narrow (x : Real64) : UInt32 :=
  let sign := if x.isNegative then 0x80000000 else 0
  let fraction := x.magnitude % twoPower 52
  let pattern :=
    if x.isNaN then (0x7fc00000 ||| (fraction / twoPower 29))
    else if x.isInfinite then BinaryFormat.binary32.infinity
    else
      let (m, k) := BinaryFormat.binary64.decode x.magnitude
      let (num, den) := scaleByTwo m 1 k
      BinaryFormat.binary32.round num den
  UInt32.ofNat (sign + pattern)

end Real64

end EcatDevice
