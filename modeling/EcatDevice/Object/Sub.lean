import EcatDevice.Access
import EcatDevice.BasicType
import EcatDevice.Bytes.Listing
import EcatDevice.MapRef
import EcatDevice.Value

/-! # Sub-objects

The data of an object live in its sub-objects. Each has a type, a default value and permissions.
-/

namespace EcatDevice

structure SubObject where
  /-- Index of the object it belongs to. -/
  index : UInt16
  subindex : UInt8
  access : Access
  basicType : BasicType
  symbol : String
  default : Value
  description : String
  deriving DecidableEq, Repr

/-- The largest number of so many bytes, within 64 bits. -/
def Encoding.unsignedMax (bytes : Nat) : UInt64 :=
  if 8 ≤ bytes then 0xffffffffffffffff else 1 <<< UInt64.ofNat (8 * bytes) - 1

/-- The sign bit of so many bytes as a number: integers range from its negative up to one less. -/
def Encoding.signedLimit : Nat → Int
  | 0 => 0
  | bytes + 1 => (1 <<< (8 * bytes + 7) : Nat)

/-- The bytes of `value` in the encoding of a type; `field` names it in errors. -/
def BasicType.encode (t : BasicType) (field : String) (value : Value) : Except Error Bytes :=
  let mismatch (expected : String) : Error :=
    .typeMismatch ("default of " ++ field) expected value.kind
  match t.encoding with
  | .unsigned n =>
    match value.int? with
    | none => .error (mismatch "integer")
    | some v =>
      if v < 0 ∨ Encoding.unsignedMax n < v.toUInt64 then .error (.overflow field v.toInt)
      else .ok (Bytes.littleEndian n v.toUInt64.toNat)
  | .signed n =>
    match value.int? with
    | none => .error (mismatch "integer")
    | some v =>
      let limit := Encoding.signedLimit n
      if v.toInt < -limit ∨ limit - 1 < v.toInt then .error (.overflow field v.toInt)
      else .ok (Bytes.ofInt n v.toInt)
  | .real32 =>
    match value.real? with
    | none => .error (mismatch "number")
    | some x => .ok (Bytes.littleEndian 4 x.narrow.toNat)
  | .text n =>
    let filled (bytes : Bytes) : Except Error Bytes :=
      if n < bytes.length then
        .error (.layoutOverflow field
          (Text.decimal bytes.length ++ " bytes > " ++ Text.decimal n))
      else .ok (bytes ++ List.replicate (n - bytes.length) 0)
    match value with
    | .str s => filled (Bytes.ofText s)
    | .int v => if v = 0 then filled [] else .error (mismatch "string")
    | .real _ => .error (mismatch "string")

namespace SubObject

def defaultDescription (subindex : UInt8) : String :=
  "SubIndex " ++ Text.decimalFill 3 subindex.toNat

def pdoBits (sub : SubObject) : Nat :=
  sub.basicType.pdoBits

def sdoBits (sub : SubObject) : Nat :=
  sub.basicType.sdoBits

def reference (sub : SubObject) : UInt32 :=
  MapRef.pack { index := sub.index, subindex := sub.subindex, bits := UInt8.ofNat sub.pdoBits }

def ctype (sub : SubObject) : String :=
  sub.basicType.declaration.fill sub.symbol

def xmlIndex (sub : SubObject) : String :=
  "#x" ++ Text.hexFillUpper 4 sub.index.toNat

def encodedDefault (sub : SubObject) : Except Error Bytes :=
  sub.basicType.encode sub.symbol sub.default

def hexBinaryDefault (sub : SubObject) : Except Error String :=
  return Bytes.hexLower (← sub.encodedDefault)

/-- The default value as one hexadecimal number: a negative integer counts as zero, a real is taken
by its 32-bit pattern, a text counts as zero. -/
def hexDecDefault (sub : SubObject) : String :=
  match sub.default with
  | .int n => "#x" ++ Text.hex n.toInt.toNat
  | .real x => "#x" ++ Text.hex x.narrow.toNat
  | .str _ => "#x0"

def display (sub : SubObject) : String :=
  "0x" ++ Text.hexFill 4 sub.index.toNat ++ ":" ++ Text.hexFill 2 sub.subindex.toNat ++ ", "
    ++ sub.access.text ++ ", " ++ sub.basicType.name ++ ", " ++ Text.decimal sub.pdoBits ++ " bit, "
    ++ sub.description ++ " [" ++ sub.default.display ++ "]"

def grant (sub : SubObject) (access : Access) : SubObject :=
  { sub with access := sub.access ||| access }

end SubObject

end EcatDevice
