import EcatDevice.Bytes.LittleEndian
import EcatDevice.Error

/-! # Packing of process data

The fields of one telegram lie behind each other in a row of bytes. A transfer sequence moves them
between live values and the buffer: it holds a pointer to the current byte and steps on. Single bits
fill a byte from bit 0 upwards. Integers go byte by byte from a byte boundary while at least eight
bits remain, and bit by bit otherwise. Byte-aligned fields start at the next byte boundary. Behind
the last field the pointer moves to the next byte boundary.
-/

namespace EcatDevice.ProcessData

/-- A field of a telegram, as the generated code names it. -/
structure Field where
  symbol : String
  bits : Nat
  byteAligned : Bool
  deriving DecidableEq, Repr

/-- One step of a transfer sequence. Bit positions are those of the current byte. -/
inductive Op where
  /-- the one bit of a field -/
  | bool (bit : Nat)
  /-- bit `shift` of a field -/
  | bit (shift bit : Nat)
  /-- the eight bits of a field from `shift` on fill the current byte -/
  | byte (shift : Nat)
  /-- the field fills so many bytes -/
  | bytes (count : Nat)
  /-- on to the next byte -/
  | advance
  /-- on to the next byte behind the last field -/
  | align
  deriving DecidableEq, Repr

def Op.stride : Op → Nat
  | .bool _ => 0
  | .bit _ _ => 0
  | .byte _ => 1
  | .bytes count => count
  | .advance => 1
  | .align => 1

structure PackedField where
  field : Field
  ops : List Op
  deriving DecidableEq, Repr

structure Packing where
  fields : List PackedField
  deriving DecidableEq, Repr

/-! ## Synthesis -/

/-- Behind a single bit the cursor moves up one bit, and on to the next byte when that was the
last. -/
def nextBit (cursor : Nat) : List Op × Nat :=
  if cursor + 1 < 8 then ([], cursor + 1) else ([.advance], 0)

/-- The steps for the `remaining` bits of an integer from bit `shift` on, and the cursor behind. -/
def integerOps (remaining shift cursor : Nat) : List Op × Nat :=
  if remaining = 0 then ([], cursor)
  else if 8 ≤ remaining ∧ cursor = 0 then
    let (ops, last) := integerOps (remaining - 8) (shift + 8) cursor
    (.byte shift :: ops, last)
  else
    let (step, next) := nextBit cursor
    let (ops, last) := integerOps (remaining - 1) (shift + 1) next
    (.bit shift cursor :: step ++ ops, last)
termination_by remaining

/-- The steps for one field that starts at a bit of the current byte, and the cursor behind. -/
def fieldOps (cursor : Nat) (field : Field) : Except Error (List Op × Nat) :=
  if field.bits = 1 then
    let (step, next) := nextBit cursor
    .ok (.bool cursor :: step, next)
  else if field.byteAligned then
    if field.bits % 8 = 0 then
      .ok ((if cursor = 0 then [] else [.advance]) ++ [.bytes (field.bits / 8)], 0)
    else
      .error (.unsupported (field.symbol ++ ": " ++ Text.decimal field.bits
        ++ " bits cannot be copied bytewise"))
  else .ok (integerOps field.bits 0 cursor)

/-- The packed fields behind a cursor. Behind the last one the pointer moves to a byte boundary. -/
def packFrom : Nat → List Field → Except Error (List PackedField)
  | _, [] => .ok []
  | cursor, field :: rest => do
    let (ops, next) ← fieldOps cursor field
    let ops := if rest.isEmpty ∧ next ≠ 0 then ops ++ [.align] else ops
    return { field, ops } :: (← packFrom next rest)

def pack (fields : List Field) : Except Error Packing :=
  return { fields := ← packFrom 0 fields }

/-! ## Generated code -/

def Op.collectCode (symbol : String) : Op → List String
  | .bool i => [
      "if (" ++ symbol ++ ") *data |= (1 << " ++ Text.decimal i ++ ");",
      "else *data &= ~(1 << " ++ Text.decimal i ++ ");"]
  | .bit shift i => [
      "if (" ++ symbol ++ " & (1 << " ++ Text.decimal shift ++ ")) *data |= (1 << "
        ++ Text.decimal i ++ ");",
      "else *data &= ~(1 << " ++ Text.decimal i ++ ");"]
  | .byte 0 => ["*data++ = " ++ symbol ++ ";"]
  | .byte shift => ["*data++ = " ++ symbol ++ " >> " ++ Text.decimal shift ++ ";"]
  | .bytes count => [
      "memcpy(data, &" ++ symbol ++ ", " ++ Text.decimal count ++ ");",
      "data += " ++ Text.decimal count ++ ";"]
  | .advance => ["data += 1;"]
  | .align => ["data += 1; // byte align to next PDO"]

def Op.scatterCode (symbol : String) : Op → List String
  | .bool i => [
      "if (*data & (1 << " ++ Text.decimal i ++ ")) " ++ symbol ++ " = 1;",
      "else " ++ symbol ++ " = 0;"]
  | .bit shift i => [
      "if (*data & (1 << " ++ Text.decimal i ++ ")) " ++ symbol ++ " |= (1 << "
        ++ Text.decimal shift ++ ");",
      "else " ++ symbol ++ " &= ~(1 << " ++ Text.decimal shift ++ ");"]
  | .byte 0 => [symbol ++ " = *data++;"]
  | .byte shift => [symbol ++ " |= (*data++ << " ++ Text.decimal shift ++ ");"]
  | .bytes count => [
      "memcpy(&" ++ symbol ++ ", data, " ++ Text.decimal count ++ ");",
      "data += " ++ Text.decimal count ++ ";"]
  | op => op.collectCode symbol

namespace PackedField

def collectCode (p : PackedField) : List String :=
  p.ops.flatMap (Op.collectCode p.field.symbol)

def scatterCode (p : PackedField) : List String :=
  p.ops.flatMap (Op.scatterCode p.field.symbol)

def stride (p : PackedField) : Nat :=
  totalOf Op.stride p.ops

end PackedField

/-! ## Execution

Live values are words of 128 bits. A field may be wider than that, and then a step would have to
shift its value by the whole width of the word or more.
-/

def liveBytes : Nat := 16

def liveBits : Nat := 8 * liveBytes

/-- What becomes of a shift by the whole width of a live value or more. -/
inductive Overflow where
  /-- overflow checks stop the run -/
  | trap
  /-- without them the amount counts modulo the width -/
  | wrap
  deriving DecidableEq, Repr

/-- The amount by which a live value is shifted, if the run goes on. -/
def Overflow.shift? (mode : Overflow) (amount : Nat) : Option Nat :=
  if amount < liveBits then some amount
  else
    match mode with
    | .trap => none
    | .wrap => some (amount % liveBits)

def setBit (byte : UInt8) (bit : Nat) (on : Bool) : UInt8 :=
  let mask := (1 : UInt8) <<< UInt8.ofNat bit
  if on then byte ||| mask else byte &&& ~~~mask

/-- Overwrites the bytes from a position on, as far as the buffer goes. -/
def overwrite (buffer : Bytes) (position : Nat) : Bytes → Bytes
  | [] => buffer
  | b :: rest => overwrite (buffer.set position b) (position + 1) rest

def Op.collect (mode : Overflow) (value position : Nat) (buffer : Bytes) : Op → Option Bytes
  | .bool i => some (buffer.modify position (setBit · i (value.testBit 0)))
  | .bit shift i => do
    let shift ← mode.shift? shift
    return buffer.modify position (setBit · i (value.testBit shift))
  | .byte shift => do
    let shift ← mode.shift? shift
    return buffer.set position (UInt8.ofNat (value >>> shift))
  | .bytes count =>
    some (overwrite buffer position (Bytes.littleEndian (min count liveBytes) value))
  | .advance => some buffer
  | .align => some buffer

/-- Moves part of the buffer at the pointer into a live value. Missing bytes count as zero, and bits
that a shift moves out of the word are lost. -/
def Op.scatter (mode : Overflow) (position : Nat) (buffer : Bytes) (value : Nat) : Op → Option Nat
  | .bool i => some (if (buffer.getD position 0).toNat.testBit i then 1 else 0)
  | .bit shift i => do
    let shift ← mode.shift? shift
    return if (buffer.getD position 0).toNat.testBit i then value ||| (1 <<< shift)
      else value - (value &&& (1 <<< shift))
  | .byte shift => do
    let shift ← mode.shift? shift
    return value ||| (((buffer.getD position 0).toNat <<< shift) % Bytes.valueCount liveBytes)
  | .bytes count => some (Bytes.toNat ((buffer.drop position).take (min count liveBytes)))
  | .advance => some value
  | .align => some value

/-- Runs the steps of one field into the buffer: the buffer and the pointer behind. -/
def PackedField.collect (mode : Overflow) (p : PackedField) (value : Nat) (state : Bytes × Nat) :
    Option (Bytes × Nat) :=
  p.ops.foldlM (fun (buffer, position) op => do
    return (← op.collect mode value position buffer, position + op.stride)) state

def PackedField.scatter (mode : Overflow) (p : PackedField) (buffer : Bytes) (position : Nat) :
    Option (Nat × Nat) :=
  p.ops.foldlM (fun (value, position) op => do
    return (← op.scatter mode position buffer value, position + op.stride)) (0, position)

namespace Packing

def byteLength (p : Packing) : Nat :=
  totalOf PackedField.stride p.fields

def totalBits (p : Packing) : Nat :=
  totalOf (·.field.bits) p.fields

/-- Runs fields into a buffer; a missing value counts as zero. -/
def collectFrom (mode : Overflow) :
    List PackedField → List Nat → Bytes × Nat → Option (Bytes × Nat)
  | [], _, state => some state
  | p :: rest, values, state => do
    collectFrom mode rest values.tail (← p.collect mode (values.headD 0) state)

/-- The telegram of a row of live values, unless the run stops. -/
def collect (p : Packing) (mode : Overflow) (values : List Nat) : Option Bytes := do
  let (buffer, _) ← collectFrom mode p.fields values (List.replicate p.byteLength 0, 0)
  return buffer

def scatterFrom (mode : Overflow) (buffer : Bytes) : List PackedField → Nat → Option (List Nat)
  | [], _ => some []
  | p :: rest, position => do
    let (value, position) ← p.scatter mode buffer position
    return value :: (← scatterFrom mode buffer rest position)

def scatter (p : Packing) (mode : Overflow) (buffer : Bytes) : Option (List Nat) :=
  scatterFrom mode buffer p.fields 0

end Packing

end EcatDevice.ProcessData
