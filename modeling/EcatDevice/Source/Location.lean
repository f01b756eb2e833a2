import EcatDevice.Text.Digits

/-! # Places in a source text

Lines and columns count from one, and a column counts characters. A line ends with a line feed, a
carriage return in front of it included; a carriage return alone is an ordinary character.
-/

namespace EcatDevice

/-- A line and a column, both from one. -/
structure Location where
  line : Nat
  column : Nat
  deriving DecidableEq, Repr, Inhabited

namespace Location

def start : Location := ⟨1, 1⟩

def advance (place : Location) (c : Char) : Location :=
  if c = '\n' then ⟨place.line + 1, 1⟩ else ⟨place.line, place.column + 1⟩

def behind (before : List Char) : Location :=
  before.foldl advance start

def display (place : Location) : String :=
  Text.decimal place.line ++ ":" ++ Text.decimal place.column

end Location

end EcatDevice
