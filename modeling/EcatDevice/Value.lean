import EcatDevice.Number.Shortest
import EcatDevice.Sorting.Stable
import EcatDevice.Text.Quoted

/-! # Values

A value is what a default, an assigned name or a setting holds: an integer, a real number or a text.
-/

namespace EcatDevice

inductive Value where
  | int (n : Int64)
  | real (x : Real64)
  | str (s : String)
  deriving DecidableEq, Repr

instance : Inhabited Value := ⟨.int 0⟩

/-- Hexadecimal text of an integer behind `0x`, with a minus sign in front of a negative one. -/
def hexInteger (n : Int64) : String :=
  if n < 0 then "-0x" ++ Text.hex n.toInt.natAbs else "0x" ++ Text.hex n.toInt.natAbs

/-- Messages and listings write reals positionally, a whole one without a point. -/
def shownReal : RealStyle :=
  { tie := .up, point := false, isPositional := fun _ => true, nan := "NaN",
    infinity := fun negative => if negative then "-inf" else "inf" }

namespace Value

/-- The default of whatever is declared without one. -/
def zero : Value := .int 0

def int? : Value → Option Int64
  | .int n => some n
  | _ => none

def str? : Value → Option String
  | .str s => some s
  | _ => none

def real? : Value → Option Real64
  | .int n => some (Real64.ofInt n.toInt)
  | .real x => some x
  | .str _ => none

/-- Whether a switch with this value is on: a number other than zero, a text other than the empty
one. -/
def isTruthy : Value → Bool
  | .int n => n != 0
  | .real x => !x.isZero
  | .str s => s != ""

def kind : Value → String
  | .int _ => "integer"
  | .real _ => "real"
  | .str _ => "string"

def display : Value → String
  | .int n => Text.decimal n.toInt
  | .real x => x.write shownReal
  | .str s => Text.quoted s

/-- Equality of values of one kind; reals are compared as numbers. -/
def equals : Value → Value → Bool
  | .int a, .int b => a == b
  | .real x, .real y => x.equals y
  | .str a, .str b => a == b
  | _, _ => false

/-- Order of the values a pattern expands to: numbers before texts, integers among themselves
exactly, mixed numbers as reals. -/
def order : Value → Value → Ordering
  | .int a, .int b => compare a.toInt b.toInt
  | .str a, .str b => compare a b
  | .str _, _ => .gt
  | _, .str _ => .lt
  | .int a, .real y => (Real64.ofInt a.toInt).compareTotal y
  | .real x, .int b => x.compareTotal (Real64.ofInt b.toInt)
  | .real x, .real y => x.compareTotal y

/-- Values in ascending order, equals in the order given. Integers beyond the precision of reals can
be so mixed with reals that there is no such order. -/
def sort? (values : List Value) : Option (List Value) :=
  Sorting.sort (fun v w => v.order w == .lt) values

end Value

end EcatDevice
