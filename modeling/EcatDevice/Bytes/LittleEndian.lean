/-! # Bytes of numbers

Numbers as rows of bytes, least significant byte first.
-/

namespace EcatDevice

/-- The sum of `measure` over a list, such as the sizes of parts that lie one behind the other. -/
def totalOf {α : Type} (measure : α → Nat) : List α → Nat
  | [] => 0
  | a :: rest => measure a + totalOf measure rest

abbrev Bytes := List UInt8

namespace Bytes

/-- The low `width` bytes of a number, least significant first. -/
def littleEndian : Nat → Nat → Bytes
  | 0, _ => []
  | width + 1, n => UInt8.ofNat n :: littleEndian width (n / 256)

def toNat : Bytes → Nat
  | [] => 0
  | b :: rest => b.toNat + 256 * toNat rest

def valueCount (width : Nat) : Nat :=
  Nat.pow 256 width

/-- The low `width` bytes of an integer in two's complement. -/
def ofInt (width : Nat) (n : Int) : Bytes :=
  littleEndian width (n % (valueCount width : Int)).toNat

def toInt (bytes : Bytes) : Int :=
  if 2 * toNat bytes < valueCount bytes.length then toNat bytes
  else (toNat bytes : Int) - valueCount bytes.length

def ofText (s : String) : Bytes :=
  s.toList.flatMap String.utf8EncodeChar

end Bytes

end EcatDevice
