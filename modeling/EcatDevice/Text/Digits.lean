/-! # Digits of numbers

Decimal and hexadecimal text of natural numbers, filled with zeros to a least width, and the
reading of digit runs back into numbers.
-/

namespace EcatDevice.Text

def zeroFill (width : Nat) (text : String) : String :=
  String.ofList (List.replicate (width - text.length) '0') ++ text

def hex (n : Nat) : String :=
  String.ofList (Nat.toDigits 16 n)

/-- Lower-case hexadecimal digits of `n`, at least `width` of them. -/
def hexFill (width n : Nat) : String :=
  zeroFill width (hex n)

def hexFillUpper (width n : Nat) : String :=
  zeroFill width (String.ofList ((Nat.toDigits 16 n).map Char.toUpper))

def decimalFill (width n : Nat) : String :=
  zeroFill width (String.ofList (Nat.toDigits 10 n))

/-- Decimal text of an integer, with a minus sign in front of a negative one. -/
def decimal (n : Int) : String :=
  if n < 0 then "-" ++ String.ofList (Nat.toDigits 10 n.natAbs)
  else String.ofList (Nat.toDigits 10 n.natAbs)

/-- The value of one digit in a base up to sixteen, either case. -/
def digitValue (c : Char) : Nat :=
  if c.isDigit then c.toNat - '0'.toNat
  else if 'a' ≤ c ∧ c ≤ 'f' then c.toNat - 'a'.toNat + 10
  else if 'A' ≤ c ∧ c ≤ 'F' then c.toNat - 'A'.toNat + 10
  else 0

/-- The number a run of digits denotes, most significant digit first. -/
def readDigits (base : Nat) (digits : List Char) : Nat :=
  digits.foldl (fun value c => value * base + digitValue c) 0

end EcatDevice.Text
