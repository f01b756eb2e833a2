import EcatDevice.Bytes.LittleEndian

/-! # Checksum of the configuration area

A cyclic redundancy check of eight bits with the polynomial `x^8 + x^2 + x + 1`. The register starts
with all bits set and takes the most significant bit of each byte first.
-/

namespace EcatDevice.Eeprom

/-- One bit of the division: the register moves up, and what falls off is reduced. -/
def crcShift (register : UInt8) : UInt8 :=
  if register &&& 0x80 = 0 then register <<< 1 else (register <<< 1) ^^^ 0x07

def crcByte (register byte : UInt8) : UInt8 :=
  Nat.repeat crcShift 8 (register ^^^ byte)

def crc8 (bytes : Bytes) : UInt8 :=
  bytes.foldl crcByte 0xff

end EcatDevice.Eeprom
