import EcatDevice.Bytes.LittleEndian
import EcatDevice.Text.Digits

/-! # Listings of bytes

Bytes as text: bare hexadecimal digits, a dump with addresses, and the body of a C array.
-/

namespace EcatDevice.Bytes

def lineLength : Nat := 16

def hexUpper (bytes : Bytes) : String :=
  String.join (bytes.map fun b => Text.hexFillUpper 2 b.toNat)

def hexLower (bytes : Bytes) : String :=
  String.join (bytes.map fun b => Text.hexFill 2 b.toNat)

/-- What stands in front of the cell at a position: lines of sixteen cells, indented. -/
def cellLead (position : Nat) : String :=
  if position = 0 then "    "
  else if position % lineLength = 0 then ",\n    "
  else ", "

/-- Appends one more cell to a text that holds `position` cells. -/
def addCell (text : String × Nat) (cell : String) : String × Nat :=
  (text.1 ++ cellLead text.2 ++ cell, text.2 + 1)

def byteCell (b : UInt8) : String :=
  "0x" ++ Text.hexFill 2 b.toNat

/-- The body of a C array: sixteen cells on a line, the last line filled with zeros. -/
def initializer (bytes : Bytes) : String :=
  let written := bytes.foldl (fun text b => addCell text (byteCell b)) ("", 0)
  let missing := (lineLength - written.2 % lineLength) % lineLength
  ((List.replicate missing "0").foldl addCell written).1

/-- One line of a dump: the address, the bytes, and a mark for each missing byte. -/
def dumpLine (address : Nat) (line : Bytes) : String :=
  Text.hexFillUpper 4 address ++ ":"
    ++ String.join (line.map fun b => " " ++ Text.hexFillUpper 2 b.toNat)
    ++ String.join (List.replicate (lineLength - line.length) " ~~") ++ "\n"

def dumpFrom (address : Nat) (bytes : Bytes) : List String :=
  if bytes.isEmpty then []
  else dumpLine address (bytes.take lineLength)
    :: dumpFrom (address + lineLength) (bytes.drop lineLength)
termination_by bytes.length
decreasing_by
  rename_i more
  have some : bytes.length ≠ 0 := by
    rw [Ne, List.length_eq_zero_iff, ← List.isEmpty_iff]
    exact more
  rw [List.length_drop]
  exact Nat.sub_lt (Nat.pos_of_ne_zero some) (by decide)

/-- Sixteen bytes on a line, with the address in front. -/
def dump (bytes : Bytes) : String :=
  String.join (dumpFrom 0 bytes)

end EcatDevice.Bytes
