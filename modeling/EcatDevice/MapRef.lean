/-! # Mapping references

A mapping object refers to a sub-object by one 32-bit number: the index of the object, the subindex,
and the width in bits.
-/

namespace EcatDevice

/-- A reference to a sub-object and the width it takes in process data. -/
structure MapRef where
  index : UInt16
  subindex : UInt8
  bits : UInt8
  deriving DecidableEq, Repr

namespace MapRef

/-- The reference as one number: index, subindex and width from the top. -/
def pack (r : MapRef) : UInt32 :=
  r.index.toUInt32 <<< 16 ||| r.subindex.toUInt32 <<< 8 ||| r.bits.toUInt32

def unpack (n : UInt32) : MapRef :=
  { index := (n >>> 16).toUInt16, subindex := (n >>> 8).toUInt8, bits := n.toUInt8 }

/-- The packed reference that an integer holds, if 32 bits can. -/
def ofInt? (n : Int64) : Option UInt32 :=
  if 0 ≤ n.toInt ∧ n.toInt < 0x100000000 then some (UInt32.ofNat n.toInt.toNat) else none

end MapRef

end EcatDevice
