import EcatDevice.Dictionary.Mapping
import EcatDevice.Settings.Basic

/-! # Derived settings

Fills in what a device description left open: fixed fallbacks first, then the values that follow
from other settings and from the process data mappings. A key that has a value keeps it; only the
mailbox protocols and the details of the object dictionary service gain bits.
-/

namespace EcatDevice.Settings

def integerFallbacks : List (String × Int64) := [
  -- identification
  ("VENDOR_ID", 0xffffffff),
  ("PRODUCT_CODE", 0xffffffff),
  ("REVISION_NUMBER", 0),
  ("SERIAL_NUMBER", 0),
  ("DEVICE_PROFILE_TYPE", 0x00001389),
  -- generic
  ("EXPLICIT_DEVICE_ID", 0),
  ("ESC_SM_WD_SUPPORTED", 0),
  ("STATIC_OBJECT_DIC", 0),
  ("ESC_EEPROM_ACCESS_SUPPORT", 0),
  -- hardware
  ("MCI_HW", 0),
  ("ESC_16BIT_ACCESS", 0),
  ("ESC_32BIT_ACCESS", 0),
  ("CONTROLLER_16BIT", 0),
  ("CONTROLLER_32BIT", 0),
  ("MBX_16BIT_ACCESS", 0),
  ("BIG_ENDIAN_16BIT", 0),
  ("BIG_ENDIAN_FORMAT", 0),
  ("EXT_DEBUGER_INTERFACE", 0),
  ("UC_SET_ECAT_LED", 0),
  ("ESC_SUPPORT_ECAT_LED", 0),
  ("ESC_EEPROM_EMULATION", 0),
  ("CREATE_EEPROM_CONTENT", 0),
  ("ESC_EEPROM_SIZE", 0x800),
  ("EEPROM_READ_SIZE", 8),
  ("EEPROM_WRITE_SIZE", 2),
  -- state machine
  ("BOOTSTRAPMODE_SUPPORTED", 0),
  ("OP_PD_REQUIRED", 1),
  ("PREOPTIMEOUT", 0x7d0),
  ("SAFEOP2OPTIMEOUT", 0x2328),
  -- synchronization
  ("AL_EVENT_ENABLED", 1),
  ("DC_SUPPORTED", 1),
  ("ECAT_TIMER_INT", 0),
  ("MIN_PD_CYCLE_TIME", 0x186a0),
  ("MAX_PD_CYCLE_TIME", 0xc3500000),
  ("PD_OUTPUT_DELAY_TIME", 0),
  ("PD_OUTPUT_CALC_AND_COPY_TIME", 0),
  ("PD_INPUT_CALC_AND_COPY_TIME", 0),
  ("PD_INPUT_DELAY_TIME", 0),
  -- application
  ("CiA402_DEVICE", 0),
  ("SAMPLE_APPLICATION", 0),
  ("SAMPLE_APPLICATION_INTERFACE", 0),
  ("USE_DEFAULT_MAIN", 1),
  -- process data
  ("MIN_PD_WRITE_ADDRESS", 0x1000),
  ("DEF_PD_WRITE_ADDRESS", 0x1800),
  ("MAX_PD_WRITE_ADDRESS", 0x3000),
  ("MIN_PD_READ_ADDRESS", 0x1000),
  ("DEF_PD_READ_ADDRESS", 0x1c00),
  ("MAX_PD_READ_ADDRESS", 0x3000),
  -- mailbox
  ("MAILBOX_QUEUE", 1),
  ("AOE_SUPPORTED", 0),
  ("COE_SUPPORTED", 1),
  ("COMPLETE_ACCESS_SUPPORTED", 1),
  ("SEGMENTED_SDO_SUPPORTED", 1),
  ("SDO_RES_INTERFACE", 1),
  ("USE_SINGLE_PDO_MAPPING_ENTRY_DESCR", 0),
  ("BACKUP_PARAMETER_SUPPORTED", 0),
  ("STORE_BACKUP_PARAMETER_IMMEDIATELY", 0),
  ("DIAGNOSIS_SUPPORTED", 0),
  ("MAX_DIAG_MSG", 0x14),
  ("EMERGENCY_SUPPORTED", 0),
  ("MAX_EMERGENCIES", 1),
  ("VOE_SUPPORTED", 0),
  ("SOE_SUPPORTED", 0),
  ("EOE_SUPPORTED", 0),
  ("STATIC_ETHERNET_BUFFER", 0),
  ("FOE_SUPPORTED", 0),
  ("FOE_SAVE_FILES", 0),
  ("MAX_FILE_SIZE", 0x500),
  ("MIN_MBX_SIZE", 0x22),
  ("MAX_MBX_SIZE", 0x100),
  ("MIN_MBX_WRITE_ADDRESS", 0x1000),
  ("DEF_MBX_WRITE_ADDRESS", 0x1000),
  ("MAX_MBX_WRITE_ADDRESS", 0x3000),
  ("MIN_MBX_READ_ADDRESS", 0x1000),
  ("DEF_MBX_READ_ADDRESS", 0x1400),
  ("MAX_MBX_READ_ADDRESS", 0x3000)]

def textFallbacks : List (String × String) := [
  ("DEVICE_NAME", "Undefined"),
  ("DEVICE_HW_VERSION", "0.00"),
  ("DEVICE_SW_VERSION", "0.00"),
  ("HW_ACCESS_FILE", "#include \"tieschw.h\""),
  ("MAKE_PTR_TO_ESC", ""),
  ("APPLICATION_FILE", "#include \"tiescappl.h\""),
  ("physics", "YY")]

def mailboxProtocols : List (String × Int64) := [
  ("AOE_SUPPORTED", 0x01),
  ("EOE_SUPPORTED", 0x02),
  ("COE_SUPPORTED", 0x04),
  ("FOE_SUPPORTED", 0x08),
  ("SOE_SUPPORTED", 0x10),
  ("VOE_SUPPORTED", 0x20)]

def mailboxSize : Int64 := 128

def fallbacks : List (String × Value) :=
  integerFallbacks.map (fun (key, n) => (key, .int n))
    ++ textFallbacks.map (fun (key, text) => (key, .str text))

/-- The size of an EEPROM as its word states it: in units of 1024 bits, less one. The number of bits
stays within 64-bit integers. -/
def advertisedSize (bytes : Int64) : Int64 :=
  let bits := max Int64.minValue.toInt (min (8 * bytes.toInt) Int64.maxValue.toInt)
  Int64.ofInt (bits.tdiv 1024 - 1)

def portCode (port : Char) : Int :=
  if port = 'Y' then 1 else if port = 'K' then 3 else 0

/-- The codes of ports, the first one in the lowest four bits. -/
def portCodes : List Char → Int
  | [] => 0
  | port :: rest => portCode port + 16 * portCodes rest

/-- The word that describes the physical ports; there are at most four. -/
def portWord (physics : String) : Except Error Int64 :=
  if 4 < physics.length then .error (.layoutOverflow "sii.phys_port" physics)
  else .ok (Int64.ofInt (portCodes physics.toList))

/-- Number of bytes that the mapped sub-objects of one direction fill. -/
def processDataBytes (d : Dictionary) (direction : Direction) : Except Error Int64 := do
  let subs ← d.mapped direction
  return Int64.ofNat ((totalOf SubObject.pdoBits subs + 7) / 8)

def bit (on : Bool) : Value :=
  .int (if on then 1 else 0)

/-- Gives each key of a list its value unless it has one. -/
def propose (s : Settings) (entries : List (String × Value)) : Settings :=
  entries.foldl (fun s entry => s.setDefault entry.1 entry.2) s

/-- The integer `bits` with the bits of all switches that are on. -/
def gather (s : Settings) (switches : List (String × Int64)) (bits : Int64) : Int64 :=
  switches.foldl (fun bits entry => if s.flag entry.1 then bits ||| entry.2 else bits) bits

/-! ## Stages

Each stage reads the settings as the stages before it left them, and either fails or adds all of its
keys. -/

abbrev Stage := Settings → Except Error Settings

def fallbackStage : Stage := fun s =>
  .ok (s.propose fallbacks)

def sizeStage : Stage := fun s => do
  let bytes ← s.int "ESC_EEPROM_SIZE"
  return s.propose [("sii.size", .int (advertisedSize bytes))]

def portStage : Stage := fun s => do
  let word ← portWord ((s.str? "physics").getD "")
  return s.propose [("sii.phys_port", .int word)]

def protocolStage : Stage := fun s => do
  let old ← s.intOr "mbx_protocol" 0
  let new := s.gather mailboxProtocols old
  return (s.insert "mbx_protocol" (.int new)).propose [("MAILBOX_SUPPORTED", bit (new != 0))]

def detailStage : Stage := fun s => do
  let old ← s.intOr "coe_details" 0
  let new := s.gather [("COE_SUPPORTED", 0x03), ("COMPLETE_ACCESS_SUPPORTED", 0x20)] old
  return (s.insert "coe_details" (.int new)).propose
    [("foe_details", bit (s.flag "FOE_SUPPORTED")), ("eoe_details", bit (s.flag "EOE_SUPPORTED"))]

def mailbox (name : String) (writeAddress readAddress : Int64) : List (String × Value) := [
  (name ++ "_mbx_rx_off", .int writeAddress),
  (name ++ "_mbx_rx_size", .int mailboxSize),
  (name ++ "_mbx_tx_off", .int readAddress),
  (name ++ "_mbx_tx_size", .int mailboxSize)]

def mailboxStage : Stage := fun s => do
  let writeAddress ← s.int "DEF_MBX_WRITE_ADDRESS"
  let readAddress ← s.int "DEF_MBX_READ_ADDRESS"
  return s.propose (mailbox "bs" writeAddress readAddress ++ mailbox "std" writeAddress readAddress)

def lengthStage : Stage := fun s =>
  .ok <| s.propose <| ["DEVICE_NAME", "DEVICE_HW_VERSION", "DEVICE_SW_VERSION"].map fun key =>
    (key ++ "_LEN", .int (Int64.ofNat ((s.str? key).getD "").utf8ByteSize))

def processDataStage (d : Dictionary) : Stage := fun s => do
  let received ← processDataBytes d .receive
  let transmitted ← processDataBytes d .transmit
  return s.propose
    [("MAX_PD_OUTPUT_SIZE", .int received), ("MAX_PD_INPUT_SIZE", .int transmitted)]

def interruptStage : Stage := fun s =>
  .ok <| s.propose [("INTERRUPTS_SUPPORTED",
    bit (["DC_SUPPORTED", "AL_EVENT_ENABLED", "ECAT_TIMER_INT"].any s.flag))]

def stages (d : Dictionary) : List Stage := [
  fallbackStage, sizeStage, portStage, protocolStage, detailStage, mailboxStage, lengthStage,
  processDataStage d, interruptStage]

/-- Runs stages up to the first that fails: the outcome, and the settings as far as they came. -/
def runStages : List Stage → Settings → Except Error Unit × Settings
  | [], s => (.ok (), s)
  | stage :: rest, s =>
    match stage s with
    | .ok s => runStages rest s
    | .error e => (.error e, s)

/-- Runs the derivation: its outcome, and the settings as far as it came. -/
def derive (d : Dictionary) (s : Settings) : Except Error Unit × Settings :=
  runStages (stages d) s

def derived (d : Dictionary) (s : Settings) : Except Error Settings :=
  match derive d s with
  | (.ok (), s) => .ok s
  | (.error e, _) => .error e

end EcatDevice.Settings
