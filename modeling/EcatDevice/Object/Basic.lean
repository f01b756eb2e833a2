import EcatDevice.Object.Sub
import Std.Data.ExtTreeMap

/-! # Objects

An object is a variable, an array or a record. A variable has one sub-object at subindex 0. An array
or a record holds the number of its elements or fields in sub-object 0; the elements or fields
follow.
-/

namespace EcatDevice

/-- Values by key, in the order of the keys. -/
abbrev ValueMap := Std.ExtTreeMap String Value

inductive ObjectKind where
  | variable
  | array
  | record
  deriving DecidableEq, Repr

namespace ObjectKind

def code : ObjectKind → Nat
  | .variable => 7
  | .array => 8
  | .record => 9

def name : ObjectKind → String
  | .variable => "variable"
  | .array => "array"
  | .record => "record"

end ObjectKind

structure Object where
  kind : ObjectKind
  index : UInt16
  symbol : String
  description : String
  subs : List SubObject
  properties : ValueMap := ∅

namespace Object

def defaultDescription (index : UInt16) : String :=
  "Index 0x" ++ Text.hexFillUpper 4 index.toNat

def isVariable (o : Object) : Bool := o.kind == .variable

def isArray (o : Object) : Bool := o.kind == .array

def isRecord (o : Object) : Bool := o.kind == .record

def direction? (o : Object) : Option Direction :=
  Direction.ofMapIndex? o.index

def sub? (o : Object) (subindex : UInt8) : Option SubObject :=
  o.subs.find? (·.subindex == subindex)

/-- The sub-objects that carry data: all but the count of an array or a record. -/
def payload (o : Object) : List SubObject :=
  match o.kind with
  | .variable => o.subs
  | .array => o.subs.drop 1
  | .record => o.subs.drop 1

def maxSubindex (o : Object) : UInt8 :=
  o.subs.foldl (fun largest sub => max largest sub.subindex) 0

def hexIndex (o : Object) : String :=
  Text.hexFillUpper 4 o.index.toNat

def xmlIndex (o : Object) : String :=
  "#x" ++ o.hexIndex

def hexDefaults (o : Object) : String :=
  String.intercalate "," <| o.subs.map fun sub =>
    match sub.default with
    | .int n => hexInteger n
    | other => other.display

def pdoDataBits (o : Object) : Nat :=
  totalOf SubObject.pdoBits (o.subs.filter (0 < ·.subindex))

def sdoBits (o : Object) : Nat :=
  totalOf SubObject.sdoBits o.subs

/-- Bit offset of a subindex in the memory of the object. -/
def sdoOffset (o : Object) (subindex : UInt8) : Nat :=
  totalOf SubObject.sdoBits (o.subs.filter (·.subindex < subindex))

def deftype (o : Object) : String :=
  let sub (position : Nat) : Option String := o.subs[position]?.map (·.basicType.deftype)
  match o.kind with
  | .variable => (sub 0).getD ""
  | .array => ((sub 1).or (sub 0)).getD ""
  | .record => if o.direction?.isSome then "DEFTYPE_PDOMAPPING" else "DEFTYPE_RECORD"

/-- The code of the kind and the largest subindex in one word. -/
def flags (o : Object) : Nat :=
  o.kind.code * 256 + o.maxSubindex.toNat

/-- A block of a listing: the object, then one line for each sub-object. -/
def display (o : Object) : String :=
  "SDO 0x" ++ Text.hexFill 4 o.index.toNat ++ ", " ++ Text.quoted o.description
    ++ String.join (o.subs.map fun sub => "\n\t" ++ sub.display)

def grant (o : Object) (subindex : UInt8) (access : Access) : Object :=
  { o with subs := o.subs.map fun sub =>
      if sub.subindex = subindex then sub.grant access else sub }

end Object

end EcatDevice
