import EcatDevice.Error

/-! # Basic data types

The catalog of data types a sub-object can have. Every type has two widths, one in process data and
one in the memory of the object; they differ for the count in sub-object 0 alone, which is announced
with eight bits and stored in sixteen.
-/

namespace EcatDevice

/-- How a default value is stored, least significant byte first. -/
inductive Encoding where
  /-- an unsigned integer of so many bytes -/
  | unsigned (bytes : Nat)
  /-- a two's complement integer of so many bytes -/
  | signed (bytes : Nat)
  /-- a 32-bit floating point number -/
  | real32
  /-- text of at most so many bytes, filled with zeros -/
  | text (bytes : Nat)
  deriving DecidableEq, Repr

def Encoding.byteLength : Encoding → Nat
  | .unsigned n => n
  | .signed n => n
  | .real32 => 4
  | .text n => n

/-- A C declaration with a gap for the declared name. -/
structure CDeclaration where
  before : String
  after : String
  deriving DecidableEq, Repr

def CDeclaration.fill (declaration : CDeclaration) (symbol : String) : String :=
  declaration.before ++ symbol ++ declaration.after

structure BasicType where
  name : String
  /-- Width in process data. -/
  pdoBits : Nat
  /-- Width in the memory of the object. -/
  sdoBits : Nat
  className : String
  /-- Code of the data type; zero marks padding. -/
  code : Nat
  declaration : CDeclaration
  encoding : Encoding
  deriving DecidableEq, Repr

namespace BasicType

def isNull (t : BasicType) : Bool :=
  t.code == 0

/-- Whether process data hold the type from a byte boundary only. -/
def isByteAligned (t : BasicType) : Bool :=
  match t.encoding with
  | .real32 => true
  | .text _ => true
  | _ => false

def deftype (t : BasicType) : String :=
  "DEFTYPE_" ++ t.className

/-- A type whose two widths agree. -/
def plain (name : String) (bits : Nat) (className : String) (code : Nat) (ctype : String)
    (encoding : Encoding) : BasicType :=
  { name, pdoBits := bits, sdoBits := bits, className, code, declaration := ⟨ctype, ""⟩, encoding }

def bitField (name : String) (bits : Nat) (className : String) (code : Nat) : BasicType :=
  { name, pdoBits := bits, sdoBits := bits, className, code,
    declaration := ⟨"unsigned ", ":" ++ Text.decimal bits⟩, encoding := .unsigned 1 }

def subindex0 : BasicType :=
  { name := "SUBINDEX0", pdoBits := 8, sdoBits := 16, className := "UNSIGNED8", code := 5,
    declaration := ⟨"uint16_t ", ""⟩, encoding := .unsigned 1 }

def udint : BasicType :=
  plain "UDINT" 32 "UNSIGNED32" 7 "uint32_t " (.unsigned 4)

def catalog : List BasicType := [
  subindex0,
  bitField "PAD1" 1 "NULL" 0,
  bitField "PAD2" 2 "NULL" 0,
  bitField "PAD3" 3 "NULL" 0,
  bitField "PAD4" 4 "NULL" 0,
  bitField "PAD5" 5 "NULL" 0,
  bitField "PAD6" 6 "NULL" 0,
  bitField "PAD7" 7 "NULL" 0,
  bitField "PAD8" 8 "NULL" 0,
  bitField "BOOL" 1 "BOOLEAN" 1,
  bitField "BIT2" 2 "BIT2" 0x31,
  bitField "BIT3" 3 "BIT3" 0x32,
  plain "SINT" 8 "INTEGER8" 2 "int8_t " (.signed 1),
  plain "USINT" 8 "UNSIGNED8" 5 "uint8_t " (.unsigned 1),
  plain "INT" 16 "INTEGER16" 3 "int16_t " (.signed 2),
  plain "UINT" 16 "UNSIGNED16" 6 "uint16_t " (.unsigned 2),
  plain "DINT" 32 "INTEGER32" 4 "int32_t " (.signed 4),
  udint,
  plain "REAL" 32 "REAL32" 8 "float " .real32,
  plain "STRING(5)" 40 "VISIBLESTRING" 9 "char *" (.text 5),
  plain "STRING(8)" 64 "VISIBLESTRING" 9 "char *" (.text 8),
  plain "STRING(10)" 80 "VISIBLESTRING" 9 "char *" (.text 10)]

def find (name : String) : Except Error BasicType :=
  match catalog.find? (·.name == name) with
  | some t => .ok t
  | none => .error (.unknownType name)

end BasicType

end EcatDevice
