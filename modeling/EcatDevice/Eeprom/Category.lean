import EcatDevice.Bytes.Listing
import EcatDevice.Eeprom.Layout

/-! # Categories

Behind the configuration area the EEPROM holds categories: a kind, a length in words, and the data,
filled to whole words. The kind `0xFFFF` ends them. `categories` reads them back from an image.
-/

namespace EcatDevice.Eeprom

def configLength : Nat := 128

def stringsKind : UInt16 := 10

def generalKind : UInt16 := 30

/-- Kind of the category of memory management units. -/
def fmmuKind : UInt16 := 40

def syncManagerKind : UInt16 := 41

def clockKind : UInt16 := 60

/-- Kind that ends the categories. -/
def endKind : UInt16 := 0xffff

/-- Number of units of each sort that settings can describe. -/
def unitCount : Nat := 8

def unitLead (sort : String) (unit : Nat) : String :=
  sort ++ Text.decimal unit ++ "."

/-- The data with a zero byte behind an odd number of bytes. -/
def evenLength (data : Bytes) : Bytes :=
  if data.length % 2 = 0 then data else data ++ [0]

def category (kind : UInt16) (data : Bytes) : Except Error Bytes :=
  let data := evenLength data
  if data.length / 2 < 0x10000 then
    .ok (Bytes.littleEndian 2 kind.toNat ++ Bytes.littleEndian 2 (data.length / 2) ++ data)
  else .error (.overflow ("category " ++ Text.decimal kind.toNat ++ " length") data.length)

def stringEntry (text : String) : Except Error Bytes :=
  let bytes := Bytes.ofText text
  if bytes.length < 256 then .ok (UInt8.ofNat bytes.length :: bytes)
  else .error (.layoutOverflow "string length" text)

/-- The category of strings: their number, then each of them. -/
def stringsCategory (strings : List String) : Except Error Bytes :=
  if strings.length < 256 then do
    let entries ← strings.mapM stringEntry
    category stringsKind (UInt8.ofNat strings.length :: entries.flatten)
  else .error (.overflow "string count" strings.length)

/-- The mode of one memory management unit; an unset one is `0xFF`. -/
def fmmuMode (s : Settings) (unit : Nat) : Except Error UInt8 := do
  let key := unitLead "fmmu" unit ++ "mode"
  let mode ← s.intOr key 0xff
  if 0 ≤ mode.toInt ∧ mode.toInt < 256 then .ok (UInt8.ofNat mode.toInt.toNat)
  else .error (.overflow key mode.toInt)

/-- The modes without the unset ones at the end, filled with `0xFF` to whole words, at least one. -/
def trimModes (modes : Bytes) : Bytes :=
  let used := (modes.reverse.dropWhile (· == 0xff)).reverse
  if used.isEmpty then [0xff, 0xff]
  else if used.length % 2 = 0 then used
  else used ++ [0xff]

def fmmuCategory (s : Settings) : Except Error Bytes := do
  category fmmuKind (trimModes (← (List.range unitCount).mapM (fmmuMode s)))

def syncManagerCount (s : Settings) : Nat :=
  (List.range unitCount).foldl (fun count unit =>
    if s.flag (unitLead "sm" unit ++ "enable") then unit + 1 else count) 0

def syncManagerCategory (s : Settings) : Except Error (Option Bytes) := do
  let count := syncManagerCount s
  if count = 0 then return none
  let entries ← (List.range count).mapM fun unit =>
    packLayout s (unitLead "sm" unit) syncManagerSlots
  return some (← category syncManagerKind entries.flatten)

def namedClocks (s : Settings) : List Nat :=
  if s.flag "DC_SUPPORTED" then
    (List.range unitCount).filter fun unit => s.flag (unitLead "dc" unit ++ "name")
  else []

def clockCategory (s : Settings) : Except Error (Option Bytes) := do
  let units := namedClocks s
  if units.isEmpty then return none
  let entries ← units.mapM fun unit =>
    packLayout s (unitLead "dc" unit) clockSlots
  return some (← category clockKind entries.flatten)

/-- Reads categories at a position of an image up to the end mark or the end of the bytes. -/
def categoriesFrom (position : Nat) (bytes : Bytes) : Except Error (List (UInt16 × Bytes)) :=
  match bytes with
  | k0 :: k1 :: n0 :: n1 :: rest =>
    let kind := UInt16.ofNat (Bytes.toNat [k0, k1])
    let length := 2 * Bytes.toNat [n0, n1]
    if kind = endKind then .ok []
    else if rest.length < length then
      .error (.overflow ("category " ++ Text.decimal kind.toNat ++ " at 0x"
        ++ Text.hexFillUpper 4 position) length)
    else do
      let others ← categoriesFrom (position + 4 + length) (rest.drop length)
      return (kind, rest.take length) :: others
  | _ => .ok []
termination_by bytes.length
decreasing_by
  rw [List.length_drop, List.length_cons, List.length_cons, List.length_cons, List.length_cons]
  omega

def categories (image : Bytes) : Except Error (List (UInt16 × Bytes)) :=
  categoriesFrom configLength (image.drop configLength)

end EcatDevice.Eeprom
