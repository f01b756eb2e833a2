import EcatDevice.Number.Real64
import EcatDevice.Text.Digits

/-! # Shortest decimal text of real numbers

The digits of a real number are the fewest that read back as the same number, and among those the
nearest to it. How they are laid out, and which way an exact half goes, is the choice of the place
that writes them (`RealStyle`).
-/

namespace EcatDevice

/-- A positive decimal number `digits * 10 ^ exponent`. -/
structure Decimal where
  digits : Nat
  exponent : Int
  deriving DecidableEq, Repr

/-- Which of two equally near decimals is taken. -/
inductive Tie where
  /-- the larger one -/
  | up
  /-- the one whose last digit is even -/
  | even
  deriving DecidableEq, Repr

namespace Decimal

def normalizeFrom : Nat → Nat → Int → Decimal
  | 0, digits, exponent => ⟨digits, exponent⟩
  | fuel + 1, digits, exponent =>
    if digits % 10 = 0 ∧ digits ≠ 0 then normalizeFrom fuel (digits / 10) (exponent + 1)
    else ⟨digits, exponent⟩

/-- The interval of numbers that round to one finite floating point number, in units of
`2 ^ exponent`: the number itself is `4 * m`. The lower half of the interval is short where the
spacing changes, and the ends belong to it when `m` is even. -/
structure Interval where
  low : Nat
  value : Nat
  high : Nat
  exponent : Int
  closed : Bool

def Interval.ofPattern (pattern : Nat) : Interval :=
  let (m, k) := BinaryFormat.binary64.decode pattern
  let below := if m = twoPower 52 ∧ twoPower 53 ≤ pattern then 1 else 2
  { low := 4 * m - below, value := 4 * m, high := 4 * m + 2, exponent := k - 2,
    closed := m % 2 = 0 }

def digitCount (n : Nat) : Nat :=
  (Nat.toDigits 10 n).length

/-- The number of places `e` with `10 ^ (e - 1) ≤ num / den < 10 ^ e`. -/
def places (num den : Nat) : Int :=
  if den ≤ num then digitCount (num / den)
  else 1 - (digitCount ((den - 1) / num) : Int)

/-- The decimal of the grid `10 ^ grid` that stands for the interval: of the two neighbours of the
value on the grid, the nearer one inside. -/
def Interval.onGrid (tie : Tie) (i : Interval) (grid : Int) : Option Nat :=
  let scale := twoPower i.exponent.toNat * tenPower (-grid).toNat
  let den := twoPower (-i.exponent).toNat * tenPower grid.toNat
  let inside (d : Nat) : Bool :=
    if i.closed then i.low * scale ≤ d * den && d * den ≤ i.high * scale
    else i.low * scale < d * den && d * den < i.high * scale
  let below := i.value * scale / den
  let twice := 2 * (i.value * scale % den)
  match inside below, inside (below + 1) with
  | false, false => none
  | true, false => some below
  | false, true => some (below + 1)
  | true, true =>
    if twice < den then some below
    else if den < twice then some (below + 1)
    else match tie with
      | .up => some (below + 1)
      | .even => some (if below % 2 = 0 then below else below + 1)

/-- The shortest decimal that reads back as the number with a positive finite pattern. -/
def shortest (tie : Tie) (pattern : Nat) : Decimal :=
  let i := Interval.ofPattern pattern
  let (num, den) := scaleByTwo i.value 1 i.exponent
  let top := places num den
  let found := (List.range 17).findSome? fun (n : Nat) =>
    let grid := top - 1 - (n : Int)
    (i.onGrid tie grid).map fun digits => (digits, grid)
  let (digits, exponent) := found.getD (num / den, 0)
  normalizeFrom (digitCount digits) digits exponent

def chars (d : Decimal) : List Char :=
  Nat.toDigits 10 d.digits

def leading (d : Decimal) : Int :=
  d.exponent + d.chars.length - 1

/-- Positional text; `point` also gives whole numbers a decimal. -/
def positional (point : Bool) (d : Decimal) : List Char :=
  let zeros (n : Int) := List.replicate n.toNat '0'
  let whole := d.chars.length + d.exponent
  if 0 ≤ d.exponent then d.chars ++ zeros d.exponent ++ (if point then ['.', '0'] else [])
  else if 0 < whole then d.chars.take whole.toNat ++ ['.'] ++ d.chars.drop whole.toNat
  else ['0', '.'] ++ zeros (-whole) ++ d.chars

/-- Scientific text: one digit before the point, a signed exponent. -/
def scientific (d : Decimal) : List Char :=
  let mantissa := match d.chars with
    | [] => []
    | [c] => [c]
    | c :: rest => [c, '.'] ++ rest
  let sign := if d.leading < 0 then ['e', '-'] else ['e', '+']
  mantissa ++ sign ++ Nat.toDigits 10 d.leading.natAbs

end Decimal

structure RealStyle where
  tie : Tie
  /-- Whether whole numbers keep one decimal. -/
  point : Bool
  /-- Exponents of the leading digit that are written positionally. -/
  isPositional : Int → Bool
  nan : String
  /-- Text of an infinity, by sign. -/
  infinity : Bool → String

def Real64.write (style : RealStyle) (x : Real64) : String :=
  let sign := if x.isNegative then "-" else ""
  if x.isNaN then style.nan
  else if x.isInfinite then style.infinity x.isNegative
  else if x.isZero then sign ++ (if style.point then "0.0" else "0")
  else
    let d := Decimal.shortest style.tie x.magnitude
    let body := if style.isPositional d.leading then d.positional style.point else d.scientific
    sign ++ String.ofList body

end EcatDevice
