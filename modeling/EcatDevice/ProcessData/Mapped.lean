import EcatDevice.Dictionary.Mapping
import EcatDevice.ProcessData.Packing

/-! # Telegrams of mapping objects

The fields of a telegram are the sub-objects its mapping object refers to.
-/

namespace EcatDevice.ProcessData

/-- The field of a mapped sub-object: a variable by its own name, others behind the name of their
object. -/
def fieldOf (d : Dictionary) (sub : SubObject) : Except Error Field :=
  match d.get? sub.index with
  | none => .error (.undefinedSymbol ("0x" ++ Text.hexFillUpper 4 sub.index.toNat))
  | some owner =>
    .ok { symbol := if owner.isVariable then owner.symbol else owner.symbol ++ "." ++ sub.symbol
          bits := sub.pdoBits
          byteAligned := sub.basicType.isByteAligned }

def mapFields (d : Dictionary) (map : Object) : Except Error (List Field) := do
  (← d.mapEntries map).mapM (fieldOf d)

def packMap (d : Dictionary) (map : Object) : Except Error Packing := do
  pack (← mapFields d map)

end EcatDevice.ProcessData
