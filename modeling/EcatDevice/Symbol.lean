import EcatDevice.Dictionary.Basic
import EcatDevice.Source.Tree

/-! # Symbols

What a declared name stands for, and its three views: the index of the object, the mapping reference
and the default value. Views look at objects through a finder, because a record under construction
is not in the dictionary yet.
-/

namespace EcatDevice

inductive Entity where
  | object (index : UInt16)
  | sub (index : UInt16) (subindex : UInt8)
  | literal (value : Value)
  deriving DecidableEq, Repr

/-- Names and what they stand for, in the order of the names. -/
abbrev SymbolTable := Std.ExtTreeMap String Entity

abbrev Finder := UInt16 → Option Object

namespace Entity

/-- The sub-object an entity stands for: its own, or the one of a variable. -/
def sub? (find : Finder) : Entity → Option SubObject
  | .object index => do
    let object ← find index
    if object.isVariable then object.sub? 0 else none
  | .sub index subindex => do
    let object ← find index
    object.sub? subindex
  | .literal _ => none

/-- The index of the object. A plain value has none. -/
def indexOf (name : String) : Entity → Except Error UInt16
  | .object index => .ok index
  | .sub index _ => .ok index
  | .literal _ => .error (.nonReferenceable ("$" ++ name))

/-- The mapping reference. Only variables and sub-objects have one. -/
def referenceOf (find : Finder) (name : String) (e : Entity) : Except Error UInt32 :=
  match e.sub? find with
  | some found => .ok found.reference
  | none => .error (.nonReferenceable ("&" ++ name))

/-- The default value. Arrays and records have none. -/
def defaultOf (find : Finder) (name : String) : Entity → Except Error Value
  | .literal value => .ok value
  | e =>
    match e.sub? find with
    | some found => .ok found.default
    | none => .error (.nonReferenceable name)

def view (find : Finder) (view : View) (name : String) (e : Entity) : Except Error Value :=
  match view with
  | .default => e.defaultOf find name
  | .reference => return .int (Int64.ofNat (← e.referenceOf find name).toNat)
  | .index => return .int (Int64.ofNat (← e.indexOf name).toNat)

end Entity

end EcatDevice
