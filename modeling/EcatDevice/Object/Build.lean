import EcatDevice.Object.Basic

/-! # Construction of objects

Variables, arrays and records are built from what a declaration says. Elements of an array are
numbered from one; a field of a record takes the subindex it asks for, which has to be above the one
before, or the next one.
-/

namespace EcatDevice

structure FieldSpec where
  /-- The wanted subindex; otherwise the next one is taken. -/
  subindex : Option UInt8
  access : Access
  basicType : BasicType
  symbol : String
  default : Value
  description : Option String
  deriving DecidableEq, Repr

namespace Object

/-- Sub-object 0 of an array or a record: the number of sub-objects behind it. -/
def countSub (index : UInt16) (count : Nat) : SubObject :=
  { index, subindex := 0, access := Access.read, basicType := BasicType.subindex0,
    symbol := "u16SubIndex0", default := .int (Int64.ofNat count),
    description := "Subindex 000" }

def single (index : UInt16) (symbol description : String) (access : Access) (t : BasicType)
    (default : Value) : Object :=
  { kind := .variable, index, symbol, description,
    subs := [{ index, subindex := 0, access, basicType := t, symbol, default, description }] }

def element (index : UInt16) (access : Access) (t : BasicType) (position : Nat) (value : Value) :
    SubObject :=
  let subindex := UInt8.ofNat (position + 1)
  { index, subindex, access, basicType := t, symbol := "data_" ++ Text.decimal position,
    default := value, description := SubObject.defaultDescription subindex }

/-- An array. Without a size it has as many elements as values; missing values are zero. -/
def array (index : UInt16) (symbol description : String) (access : Access) (t : BasicType)
    (size : Option Nat) (values : List Value) : Except Error Object :=
  let count := size.getD values.length
  if count < values.length then .error (.arrayOversize symbol count values.length)
  else if 255 < count then .error (.overflow (symbol ++ " element count") count)
  else
    let filled := values ++ List.replicate (count - values.length) Value.zero
    .ok { kind := .array, index, symbol, description,
          subs := countSub index count
            :: filled.mapIdx (fun position value => element index access t position value) }

def fieldSubindex (symbol : String) (previous : UInt8) (field : FieldSpec) :
    Except Error UInt8 :=
  match field.subindex with
  | some wanted =>
    if previous < wanted then .ok wanted
    else .error (.subindexOrder (symbol ++ "." ++ field.symbol) wanted.toNat)
  | none =>
    if previous < 255 then .ok (previous + 1)
    else .error (.overflow (symbol ++ "." ++ field.symbol ++ " subindex") 256)

def fieldSubs (index : UInt16) (symbol : String) :
    UInt8 → List FieldSpec → Except Error (List SubObject)
  | _, [] => .ok []
  | previous, field :: rest => do
    let subindex ← fieldSubindex symbol previous field
    let subs ← fieldSubs index symbol subindex rest
    return {
      index, subindex, access := field.access, basicType := field.basicType,
      symbol := field.symbol, default := field.default,
      description := field.description.getD (SubObject.defaultDescription subindex) } :: subs

def record (index : UInt16) (symbol description : String) (fields : List FieldSpec) :
    Except Error Object :=
  if 255 < fields.length then .error (.overflow (symbol ++ " field count") fields.length)
  else do
    let subs ← fieldSubs index symbol 0 fields
    return { kind := .record, index, symbol, description,
             subs := countSub index fields.length :: subs }

end Object

end EcatDevice
