import EcatDevice.Eeprom.Category
import EcatDevice.Eeprom.Checksum

/-! # The EEPROM image

The image starts with the configuration area, whose checksum lies inside it. The categories follow,
and the rest is filled up to the size of the EEPROM. What the image fixes on the way, such as the
place of a name among the strings, is published as settings.
-/

namespace EcatDevice.Eeprom

def defaultSize : Int64 := 0x800

/-- The largest size that the word of the size can state. -/
def maxSize : Nat := 0x800000

/-- The settings that name strings, and those that hold the places of these. -/
def namedStrings : List (String × String) := [
  ("TYPE_NAME", "TYPE_IDX"),
  ("GROUP_NAME", "GROUP_IDX"),
  ("IMG_NAME", "IMG_IDX"),
  ("ORDER_NO_NAME", "ORDER_NO_IDX"),
  ("DEVICE_NAME", "DEVICE_IDX")]

structure Image where
  bytes : Bytes
  checksum : UInt8
  /-- The strings; their places count from one. -/
  strings : List String
  published : Settings

/-- Collects strings: the strings so far, the settings to pack from, and the published ones. -/
structure Collected where
  strings : List String
  working : Settings
  published : Settings

namespace Collected

/-- Publishes a setting that later parts of the image read. -/
def publish (c : Collected) (key : String) (value : Value) : Collected :=
  { c with working := c.working.insert key value, published := c.published.insert key value }

def add (c : Collected) (nameKey indexKey : String) : Except Error Collected := do
  let text ← c.working.str nameKey
  let strings := c.strings ++ [text]
  return { c with strings }.publish indexKey (.int (Int64.ofNat strings.length))

/-- Adds the string of a key if it has one; the place of a missing string is zero. -/
def addNamed (c : Collected) (keys : String × String) : Except Error Collected :=
  if c.working.contains keys.1 then c.add keys.1 keys.2
  else .ok (c.publish keys.2 (.int 0))

def addClock (c : Collected) (unit : Nat) : Except Error Collected :=
  let key := unitLead "dc" unit ++ "name"
  if c.working.contains key then c.add key (key ++ "_idx") else .ok c

def addAll (c : Collected) : Except Error Collected := do
  let c ← namedStrings.foldlM addNamed c
  if c.working.flag "DC_SUPPORTED" then (List.range unitCount).foldlM addClock c else return c

end Collected

def allCategories (s : Settings) (strings : List String) : Except Error Bytes := do
  let names ← if strings.isEmpty then pure [] else stringsCategory strings
  let general ← category generalKind (← packLayout s "" generalSlots)
  let units ← fmmuCategory s
  let managers ← syncManagerCategory s
  let clocks ← clockCategory s
  return names ++ general ++ units ++ managers.getD [] ++ clocks.getD []

/-- The content filled with `0xFF` up to the size of the EEPROM. -/
def fillImage (s : Settings) (content : Bytes) : Except Error Bytes := do
  let size ← s.intOr "ESC_EEPROM_SIZE" defaultSize
  if size.toInt < 0 ∨ (maxSize : Int) < size.toInt then
    .error (.overflow "ESC_EEPROM_SIZE" size.toInt)
  else if size.toInt < content.length then
    .error (.layoutOverflow "ESC_EEPROM_SIZE" (Text.decimal content.length ++ " byte image"))
  else .ok (content ++ List.replicate (size.toInt.toNat - content.length) 0xff)

def build (s : Settings) : Except Error Image := do
  let head ← packLayout s "" headSlots
  let checksum := crc8 head
  let start : Collected := { strings := [], working := s, published := Settings.empty }
  let start := start.publish "sii.checksum" (.int (Int64.ofNat checksum.toNat))
  let config ← packLayout start.working "" configSlots
  let c ← start.addAll
  let content ← allCategories c.working c.strings
  let bytes ← fillImage c.working (config ++ content)
  let published := c.published
    |>.insert "config_data" (.str (Bytes.hexUpper head))
    |>.insert "bootstrap" (.str (Bytes.hexUpper ((config.drop 0x28).take 8)))
    |>.insert "sii_eeprom_initializer" (.str (Bytes.initializer bytes))
  return { bytes, checksum, strings := c.strings, published }

end EcatDevice.Eeprom
