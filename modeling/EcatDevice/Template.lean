import EcatDevice.Json
import EcatDevice.ProcessData.Mapped
import EcatDevice.Settings.Basic

/-! # Data for source templates

The dictionary and the settings as one JSON tree, which the templates of the generated C sources
read. Keys that end in a question mark switch sections of a template. Settings and annotations share
an object with fixed keys, so none of them may be called like one.
-/

namespace EcatDevice.Template

def codeSeparator : String := "\n            "

def appName : String := "coedsl"

def treeKeys : List String := ["objects", "date", "appname"]

def objectKeys : List String := [
  "hex_index", "variable?", "array?", "record?", "max_subindex", "subs", "dsubs", "mapped_subs",
  "description", "symbol", "hex_defaults", "pdo_data_bitsize", "deftype", "objflags",
  "tx_pdo_map?", "rx_pdo_map?"]

/-- Refuses free keys that are fixed ones; `what` says whose they are. -/
def checkKeys (free : ValueMap) (fixed : List String) (what : String) : Except Error Unit :=
  match (free.toList.map Prod.fst).find? fixed.contains with
  | some key => .error (.unsupported (what ++ " \x60" ++ key ++ "\x60 collides with a context key"))
  | none => .ok ()

/-- Type of the configuration tool for a data type; two slashes comment an entry out. -/
def toolType (typeName : String) : String :=
  match typeName with
  | "BOOL" => "bit lbloo"
  | "SINT" => "byte _u"
  | "USINT" => "byte _u"
  | "INT" => "word _u"
  | "UINT" => "word _u"
  | "DINT" => "long _u"
  | "UDINT" => "long _u"
  | "REAL" => "float _uf"
  | _ => "//"

def subTree (sub : SubObject) (ctype : String) : Json := .obj [
  ("subindex", .int sub.subindex.toNat),
  ("hex_subindex", .str (Text.hexFill 2 sub.subindex.toNat)),
  ("ctype", .str ctype),
  ("subsymbol", .str sub.symbol),
  ("deftype", .str sub.basicType.deftype),
  ("pdo_bitsize", .int sub.pdoBits),
  ("sdo_bitsize", .int sub.sdoBits),
  ("access_code_hex", .str sub.access.hex),
  ("access", .str sub.access.text),
  ("description", .str sub.description),
  ("null?", .bool sub.basicType.isNull),
  ("txpdo?", .bool sub.access.isTxPdo),
  ("rxpdo?", .bool sub.access.isRxPdo),
  ("default", sub.default.toJson),
  ("cfg_type", .str (toolType sub.basicType.name))]

/-- C declaration of all elements of an array by one of them. A bit field cannot be one. -/
def elementsType (object : Object) (element : SubObject) : Except Error String :=
  if element.ctype.toList.contains ':' then
    .error (.unsupported (object.symbol ++ ": arrays of bit types"))
  else
    let base := String.ofList (element.ctype.toList.takeWhile (· != ' '))
    .ok (base ++ " aEntries[" ++ Text.decimal object.maxSubindex.toNat ++ "]")

/-- The trees of the sub-objects. An array has its count and one declaration for all elements. -/
def subTrees (object : Object) : Except Error (List Json) :=
  match object.kind, object.subs with
  | .array, count :: element :: _ => do
    return [subTree count count.ctype, subTree element (← elementsType object element)]
  | _, subs => .ok (subs.map fun sub => subTree sub sub.ctype)

/-- The tree of a mapped sub-object with the code that transfers it. -/
def mappedTree (sub : SubObject) (packed : ProcessData.PackedField) : Json := .obj [
  ("tx_pdo_code", .str (String.intercalate codeSeparator packed.collectCode)),
  ("rx_pdo_code", .str (String.intercalate codeSeparator packed.scatterCode)),
  ("subindex", .int sub.subindex.toNat),
  ("ctype", .str sub.ctype),
  ("subsymbol", .str sub.symbol),
  ("deftype", .str sub.basicType.deftype),
  ("pdo_bitsize", .int sub.pdoBits),
  ("sdo_bitsize", .int sub.sdoBits),
  ("access_code_hex", .str sub.access.hex),
  ("description", .str sub.description),
  ("txpdo?", .bool sub.access.isTxPdo),
  ("rxpdo?", .bool sub.access.isRxPdo),
  ("default", sub.default.toJson)]

/-- The trees of what a mapping object refers to; other objects have none. -/
def mappedTrees (d : Dictionary) (object : Object) : Except Error Json :=
  if object.direction?.isNone then .ok .null
  else do
    let entries ← d.mapEntries object
    let packing ← ProcessData.packMap d object
    return .arr (List.zipWith mappedTree entries packing.fields)

def freeMembers (free : ValueMap) : List (String × Json) :=
  free.toList.map fun (key, value) => (key, value.toJson)

def objectTree (d : Dictionary) (object : Object) : Except Error Json := do
  checkKeys object.properties objectKeys ("property of " ++ object.symbol)
  let subs ← subTrees object
  let mapped ← mappedTrees d object
  return .obj (freeMembers object.properties ++ [
    ("hex_index", .str object.hexIndex),
    ("variable?", .bool object.isVariable),
    ("array?", .bool object.isArray),
    ("record?", .bool object.isRecord),
    ("max_subindex", .int object.maxSubindex.toNat),
    ("subs", .arr subs),
    ("dsubs", .arr (subs.drop 1)),
    ("mapped_subs", mapped),
    ("description", .str object.description),
    ("symbol", .str object.symbol),
    ("hex_defaults", .str object.hexDefaults),
    ("pdo_data_bitsize", .int object.pdoDataBits),
    ("deftype", .str object.deftype),
    ("objflags", .str ("0x" ++ Text.hex object.flags)),
    ("tx_pdo_map?", .bool (object.direction? == some .transmit)),
    ("rx_pdo_map?", .bool (object.direction? == some .receive))])

/-- A setting as templates see it: integers of more than one digit are hexadecimal texts. -/
def shownSetting (value : Value) : Value :=
  match value with
  | .int n => if -9 ≤ n.toInt ∧ n.toInt ≤ 9 then value else .str (hexInteger n)
  | _ => value

def tree (d : Dictionary) (s : Settings) (date : String) : Except Error Json := do
  let free := s.values.map fun _ value => shownSetting value
  checkKeys free treeKeys "setting"
  let objects ← d.objects.mapM (objectTree d)
  return .obj (freeMembers free ++ [
    ("objects", .arr objects), ("date", .str date), ("appname", .str appName)])

def text (d : Dictionary) (s : Settings) (date : String) : Except Error String :=
  return (← tree d s date).pretty

end EcatDevice.Template
