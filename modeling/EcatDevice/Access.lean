import EcatDevice.Error

/-! # Access permissions

A mask says in which device states a sub-object can be read and written, whether it is mapped into
process data, and a few further marks. Each bit has a keyword in the source language, and the first
eight have a place in the text form `rwrwrwRT`.
-/

namespace EcatDevice

/-- Access permissions of a sub-object, as a bit mask. -/
structure Access where
  bits : UInt16
  deriving DecidableEq, Repr, Inhabited

namespace Access

def empty : Access := ⟨0⟩

/-- Readable in every state. -/
def read : Access := ⟨0x07⟩

/-- Writable in every state. -/
def write : Access := ⟨0x38⟩

def rxPdo : Access := ⟨0x40⟩

def txPdo : Access := ⟨0x80⟩

instance : OrOp Access := ⟨fun a b => ⟨a.bits ||| b.bits⟩⟩

/-- Whether every permission of `b` is one of `a`. -/
def contains (a b : Access) : Bool :=
  a.bits &&& b.bits == b.bits

/-- The keywords of the source language. `no_pdo_mapping` grants nothing. -/
def keywords : List (String × Access) := [
  ("readwrite", ⟨0x3f⟩), ("read", read), ("read_preop", ⟨0x01⟩), ("read_safeop", ⟨0x02⟩),
  ("read_op", ⟨0x04⟩), ("write", write), ("write_preop", ⟨0x08⟩), ("write_safeop", ⟨0x10⟩),
  ("write_op", ⟨0x20⟩), ("no_pdo_mapping", empty), ("rx_pdo_mapping", rxPdo),
  ("tx_pdo_mapping", txPdo), ("backup", ⟨0x100⟩), ("settings", ⟨0x200⟩),
  ("safe_inputs", ⟨0x400⟩), ("safe_outputs", ⟨0x800⟩), ("safe_parameter", ⟨0x1000⟩)]

def ofKeyword? (keyword : String) : Option Access :=
  keywords.lookup keyword

/-- Letter and bit of each place of the text form: reading and writing in the three states, then
the two process data directions. -/
def letters : List (Char × UInt16) := [
  ('r', 0x01), ('w', 0x08), ('r', 0x02), ('w', 0x10), ('r', 0x04), ('w', 0x20), ('R', 0x40),
  ('T', 0x80)]

/-- The text form; a dash marks an absent permission. -/
def text (a : Access) : String :=
  String.ofList (letters.map fun (letter, bit) => if a.bits &&& bit == 0 then '-' else letter)

/-- Reads the places of the text form one by one; missing places count as dashes. -/
def readLetters : List (Char × UInt16) → List Char → Option UInt16
  | [], [] => some 0
  | [], _ :: _ => none
  | _ :: _, [] => some 0
  | (letter, bit) :: places, c :: rest =>
    if c = '-' then readLetters places rest
    else if c = letter then (readLetters places rest).map (bit ||| ·)
    else none

def ofText (s : String) : Except Error Access :=
  match readLetters letters s.toList with
  | some bits => .ok ⟨bits⟩
  | none => .error (.invalidAccess s)

def hex (a : Access) : String :=
  "0x" ++ Text.hex a.bits.toNat

def isTxPdo (a : Access) : Bool := a.contains txPdo

def isRxPdo (a : Access) : Bool := a.contains rxPdo

end Access

/-- Direction of process data, seen from the device. -/
inductive Direction where
  /-- process data the device receives; mapping objects `0x16xx` -/
  | receive
  /-- process data the device transmits; mapping objects `0x1Axx` -/
  | transmit
  deriving DecidableEq, Repr

namespace Direction

/-- The direction of the mapping object at an index, if it is an index of mapping objects. -/
def ofMapIndex? (index : UInt16) : Option Direction :=
  if index >>> 8 = 0x16 then some .receive
  else if index >>> 8 = 0x1a then some .transmit
  else none

def flag : Direction → Access
  | .receive => Access.rxPdo
  | .transmit => Access.txPdo

end Direction

end EcatDevice
