import EcatDevice.Dictionary.Basic

/-! # Process data mappings

An object at an index of mapping objects lists references to the sub-objects that make up one
process data telegram. A reference of zero is a reserved slot.
-/

namespace EcatDevice.Dictionary

def entryReference (map : Object) (entry : SubObject) : Except Error UInt32 :=
  match entry.default.int?.bind MapRef.ofInt? with
  | some reference => .ok reference
  | none =>
    .error (.typeMismatch (map.symbol ++ "." ++ entry.symbol) "PDO mapping reference"
      entry.default.display)

def entriesFrom (d : Dictionary) (map : Object) : List SubObject → Except Error (List SubObject)
  | [] => .ok []
  | entry :: rest => do
    let reference ← entryReference map entry
    if reference = 0 then entriesFrom d map rest
    else
      match d.find? reference with
      | some sub => return sub :: (← entriesFrom d map rest)
      | none =>
        .error (.undefinedSymbol
          ("&0x" ++ Text.hexFillUpper 8 reference.toNat ++ " in " ++ map.symbol))

/-- The sub-objects a mapping object refers to, reserved slots left out. -/
def mapEntries (d : Dictionary) (map : Object) : Except Error (List SubObject) :=
  entriesFrom d map map.payload

/-- The sub-objects all mapping objects of one direction refer to. -/
def mapped (d : Dictionary) (direction : Direction) : Except Error (List SubObject) := do
  let maps := d.objects.filter fun object => object.direction? == some direction
  return (← maps.mapM d.mapEntries).flatten

def mapField (sub : SubObject) : FieldSpec :=
  { subindex := none, access := Access.read, basicType := BasicType.udint, symbol := sub.symbol,
    default := .int (Int64.ofNat sub.reference.toNat), description := some sub.description }

/-- Adds a mapping record for all data of an object, and marks these with the direction. -/
def synthesizeMap (d : Dictionary) (mapIndex sourceIndex : UInt16) : Except Error Dictionary :=
  match Direction.ofMapIndex? mapIndex with
  | none =>
    .error (.unsupported
      ("0x" ++ Text.hexFillUpper 4 mapIndex.toNat ++ " is not a PDO mapping index"))
  | some direction =>
    match d.get? sourceIndex with
    | none => .error (.undefinedSymbol ("0x" ++ Text.hexFillUpper 4 sourceIndex.toNat))
    | some source => do
      let map ← Object.record mapIndex (source.symbol ++ "_map")
        ("PDO Map: " ++ source.description) (source.payload.map mapField)
      let d ← d.insert map
      return source.payload.foldl (fun d sub => d.grant sub.reference direction.flag) d

end EcatDevice.Dictionary
