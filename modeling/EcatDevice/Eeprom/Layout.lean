import EcatDevice.Bytes.LittleEndian
import EcatDevice.Settings.Basic

/-! # Fixed layouts

A layout is a row of slots. Each slot takes an integer from the settings, or its fallback, and
stores it least significant byte first. A value that does not fit is an error; nothing is cut off.
-/

namespace EcatDevice.Eeprom

inductive Format where
  | unsigned8
  | unsigned16
  | integer16
  | unsigned32
  | integer32
  deriving DecidableEq, Repr

namespace Format

def width : Format → Nat
  | .unsigned8 => 1
  | .unsigned16 => 2
  | .integer16 => 2
  | .unsigned32 => 4
  | .integer32 => 4

def isSigned : Format → Bool
  | .integer16 => true
  | .integer32 => true
  | _ => false

def fits (format : Format) (n : Int) : Bool :=
  let count : Int := Bytes.valueCount format.width
  if format.isSigned then -(count / 2) ≤ n && n < count / 2 else 0 ≤ n && n < count

end Format

inductive Slot where
  /-- the integer of a key -/
  | word (key : String) (fallback : Int64) (format : Format)
  /-- so many zero bytes -/
  | gap (bytes : Nat)
  deriving DecidableEq, Repr

def Slot.size : Slot → Nat
  | .word _ _ format => format.width
  | .gap bytes => bytes

/-- The bytes of one slot. `lead` stands in front of its key. -/
def Slot.pack (s : Settings) (lead : String) : Slot → Except Error Bytes
  | .gap bytes => .ok (List.replicate bytes 0)
  | .word key fallback format => do
    let n ← s.intOr (lead ++ key) fallback
    if format.fits n.toInt then .ok (Bytes.ofInt format.width n.toInt)
    else .error (.overflow (lead ++ key) n.toInt)

def packLayout (s : Settings) (lead : String) (layout : List Slot) : Except Error Bytes :=
  return (← layout.mapM (Slot.pack s lead)).flatten

/-! ## The layouts of the EEPROM -/

/-- The part of the configuration area that the checksum covers. -/
def headSlots : List Slot := [
  .word "pdi_control" 0x0080 .unsigned16,
  .word "pdi_config" 0x00e0 .unsigned16,
  .word "sync_impulse_len" 0x03e8 .unsigned16,
  .word "pdi_config2" 0 .unsigned16,
  .word "sta_alias" 0 .unsigned16,
  .gap 4]

def configSlots : List Slot := headSlots ++ [
  .word "sii.checksum" 0 .unsigned16,
  .word "VENDOR_ID" 0xffffffff .unsigned32,
  .word "PRODUCT_CODE" 0xffffffff .unsigned32,
  .word "REVISION_NUMBER" 1 .unsigned32,
  .word "SERIAL_NUMBER" 0 .unsigned32,
  .gap 8,
  .word "bs_mbx_rx_off" 0x1000 .unsigned16,
  .word "bs_mbx_rx_size" 0x0080 .unsigned16,
  .word "bs_mbx_tx_off" 0x1400 .unsigned16,
  .word "bs_mbx_tx_size" 0x0080 .unsigned16,
  .word "std_mbx_rx_off" 0x1000 .unsigned16,
  .word "std_mbx_rx_size" 0x0080 .unsigned16,
  .word "std_mbx_tx_off" 0x1400 .unsigned16,
  .word "std_mbx_tx_size" 0x0080 .unsigned16,
  .word "mbx_protocol" 0 .unsigned16,
  .gap 66,
  .word "sii.size" 0x000f .unsigned16,
  .word "sii.version" 1 .unsigned16]

def generalSlots : List Slot := [
  .word "GROUP_IDX" 0 .unsigned8,
  .word "IMG_IDX" 0 .unsigned8,
  .word "ORDER_NO_IDX" 0 .unsigned8,
  .word "DEVICE_IDX" 0 .unsigned8,
  .gap 1,
  .word "coe_details" 0 .unsigned8,
  .word "foe_details" 0 .unsigned8,
  .word "eoe_details" 0 .unsigned8,
  .word "soe_channels" 0 .unsigned8,
  .word "ds402_channels" 0 .unsigned8,
  .word "sysman_class" 0 .unsigned8,
  .word "general_flags" 0 .unsigned8,
  .word "current_on_ebus" 0 .integer16,
  .gap 2,
  .word "sii.phys_port" 0 .unsigned16,
  .gap 14]

def syncManagerSlots : List Slot := [
  .word "start_addr" 0 .unsigned16,
  .word "size" 0 .unsigned16,
  .word "control" 0 .unsigned8,
  .word "status" 0 .unsigned8,
  .word "enable" 0 .unsigned8,
  .word "type" 0 .unsigned8]

def clockSlots : List Slot := [
  .word "sync0_cycle" 0 .unsigned32,
  .word "sync0_shift" 0 .integer32,
  .word "sync1_shift" 0 .integer32,
  .word "sync1_cycle_factor" 0 .integer16,
  .word "assign_activate" 0 .unsigned16,
  .word "sync0_cycle_factor" 0 .integer16,
  .word "name_idx" 0 .unsigned8,
  .gap 5]

end EcatDevice.Eeprom
