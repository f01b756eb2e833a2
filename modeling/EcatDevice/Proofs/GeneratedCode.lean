import EcatDevice.Proofs.Telegram

/-! # Generated code on live variables

The generated code moves a telegram into variables that still hold the values of the telegram
before, whereas the transfer sequence itself starts from zero. Both agree except for whole bytes
inside an integer that does not start on a byte boundary: the code merely adds those bytes to the
variable, and the old bits stay.
-/

namespace EcatDevice.ProcessData

/-! ## Statements -/

inductive Assign where
  | number (n : Nat)
  | setBit (shift : Nat)
  | clearBit (shift : Nat)
  deriving DecidableEq, Repr

/-- A statement of the code that moves a field out of the buffer. -/
inductive CStatement where
  | test (bit : Nat) (yes no : Assign)
  /-- the current byte becomes the value -/
  | load
  /-- the current byte is added to the value -/
  | add (shift : Nat)
  /-- so many bytes become the low bytes of the value -/
  | copy (count : Nat)
  | move (count : Nat) (note : String)
  deriving DecidableEq, Repr

namespace Assign

def code (symbol : String) : Assign → String
  | .number n => symbol ++ " = " ++ Text.decimal n ++ ";"
  | .setBit shift => symbol ++ " |= (1 << " ++ Text.decimal shift ++ ");"
  | .clearBit shift => symbol ++ " &= ~(1 << " ++ Text.decimal shift ++ ");"

def run (value : Nat) : Assign → Nat
  | .number n => n
  | .setBit shift => value ||| (1 <<< shift)
  | .clearBit shift => value - (value &&& (1 <<< shift))

end Assign

namespace CStatement

def code (symbol : String) : CStatement → List String
  | .test i yes no => [
      "if (*data & (1 << " ++ Text.decimal i ++ ")) " ++ yes.code symbol,
      "else " ++ no.code symbol]
  | .load => [symbol ++ " = *data++;"]
  | .add shift => [symbol ++ " |= (*data++ << " ++ Text.decimal shift ++ ");"]
  | .copy count => ["memcpy(&" ++ symbol ++ ", data, " ++ Text.decimal count ++ ");"]
  | .move count note => ["data += " ++ Text.decimal count ++ ";" ++ note]

/-- The variable and the pointer behind a statement. Reading past the buffer is undefined. -/
def run (buffer : Bytes) : CStatement → Nat × Nat → Option (Nat × Nat)
  | .test i yes no, (value, data) => do
    let byte ← buffer[data]?
    return (if byte.toNat.testBit i then yes.run value else no.run value, data)
  | .load, (_, data) => do
    let byte ← buffer[data]?
    return (byte.toNat, data + 1)
  | .add shift, (value, data) => do
    let byte ← buffer[data]?
    return (value ||| (byte.toNat <<< shift), data + 1)
  | .copy count, (value, data) =>
    if data + count ≤ buffer.length then
      some (Bytes.toNat ((buffer.drop data).take count)
        + value / Bytes.valueCount count * Bytes.valueCount count, data)
    else none
  | .move count _, (value, data) => some (value, data + count)

end CStatement

def runStatements (buffer : Bytes) : List CStatement → Nat × Nat → Option (Nat × Nat)
  | [], state => some state
  | s :: rest, state => do runStatements buffer rest (← s.run buffer state)

def Op.statements : Op → List CStatement
  | .bool i => [.test i (.number 1) (.number 0)]
  | .bit shift i => [.test i (.setBit shift) (.clearBit shift)]
  | .byte 0 => [.load]
  | .byte shift => [.add shift]
  | .bytes count => [.copy count, .move count ""]
  | .advance => [.move 1 ""]
  | .align => [.move 1 " // byte align to next PDO"]

def PackedField.statements (p : PackedField) : List CStatement :=
  p.ops.flatMap Op.statements

def runFields (buffer : Bytes) : List PackedField → List Nat → Nat → Option (List Nat)
  | [], _, _ => some []
  | p :: rest, live, data => do
    let (value, data) ← runStatements buffer p.statements (live.headD 0, data)
    return value :: (← runFields buffer rest live.tail data)

/-- Runs the code of a telegram on variables that hold `live`. -/
def Packing.runCode (p : Packing) (buffer : Bytes) (live : List Nat) : Option (List Nat) :=
  runFields buffer p.fields live 0

theorem Op.scatterCode_eq (op : Op) (symbol : String) :
    op.scatterCode symbol = op.statements.flatMap (CStatement.code symbol) := by
  have one : Text.decimal 1 = "1" := by decide
  have zero : Text.decimal 0 = "0" := by decide
  cases op with
  | byte shift => cases shift <;> rfl
  | bytes count => simp [Op.scatterCode, Op.statements, CStatement.code]
  | advance | align => simp [Op.scatterCode, Op.collectCode, Op.statements, CStatement.code, one]
  | bool i =>
      simp [Op.scatterCode, Op.statements, CStatement.code, Assign.code, one, zero,
        String.append_assoc]
  | bit shift i =>
      simp [Op.scatterCode, Op.statements, CStatement.code, Assign.code, String.append_assoc]

/-- The statements are those of the generated text. -/
theorem PackedField.scatterCode_eq (p : PackedField) :
    p.scatterCode = p.statements.flatMap (CStatement.code p.field.symbol) := by
  simp only [PackedField.scatterCode, PackedField.statements, List.flatMap_assoc]
  congr 1
  funext op
  exact op.scatterCode_eq p.field.symbol

/-! ## Steps -/

def Op.live (pointer : Nat) (buffer : Bytes) (value : Nat) : Op → Nat
  | .byte 0 => (buffer.getD pointer 0).toNat
  | .bytes count =>
    Bytes.toNat ((buffer.drop pointer).take count)
      + value / Bytes.valueCount count * Bytes.valueCount count
  | op => op.fetch pointer buffer value

def liveSteps (buffer : Bytes) : List Op → Nat × Nat → Nat × Nat
  | [], state => state
  | op :: rest, (value, pointer) =>
    liveSteps buffer rest (op.live pointer buffer value, pointer + op.stride)

theorem runStatements_append (buffer : Bytes) (left right : List CStatement) (state : Nat × Nat) :
    runStatements buffer (left ++ right) state =
      (runStatements buffer left state).bind (runStatements buffer right) := by
  induction left generalizing state with
  | nil => rfl
  | cons s rest ih =>
      simp only [List.cons_append, runStatements, Option.bind_eq_bind, ih, Option.bind_assoc]

/-- The code of a step that stays inside the buffer never reads past it. -/
theorem Op.run_statements {op : Op} {shift place pointer : Nat}
    (moves : op.Moves shift place pointer) {buffer : Bytes}
    (room : place + op.width ≤ 8 * buffer.length) (value : Nat) :
    runStatements buffer op.statements (value, pointer) =
      some (op.live pointer buffer value, pointer + op.stride) := by
  cases op with
  | bool i | bit s i =>
      obtain ⟨-, inside, rfl⟩ := moves
      simp only [Op.width] at room
      have present : pointer < buffer.length := by omega
      simp [Op.statements, runStatements, CStatement.run, present, Op.live, Op.fetch, Op.stride,
        Assign.run]
  | byte s =>
      obtain ⟨-, rfl⟩ := moves
      simp only [Op.width] at room
      have present : pointer < buffer.length := by omega
      cases s with
      | zero => simp [Op.statements, runStatements, CStatement.run, present, Op.live, Op.stride]
      | succ s =>
          simp [Op.statements, runStatements, CStatement.run, present, Op.live, Op.fetch,
            Op.stride]
  | bytes count =>
      obtain ⟨-, rfl⟩ := moves
      simp only [Op.width] at room
      have present : pointer + count ≤ buffer.length := by omega
      simp [Op.statements, runStatements, CStatement.run, present, Op.live, Op.stride]
  | advance | align => rfl

theorem runStatements_steps {shift place pointer : Nat} {ops : List Op}
    (moves : MovesAll shift place pointer ops) {buffer : Bytes}
    (room : place + totalOf Op.width ops ≤ 8 * buffer.length) (value : Nat) :
    runStatements buffer (ops.flatMap Op.statements) (value, pointer) =
      some (liveSteps buffer ops (value, pointer)) := by
  induction ops generalizing shift place pointer value with
  | nil => rfl
  | cons op rest ih =>
      simp only [totalOf] at room
      rw [List.flatMap_cons, runStatements_append, Op.run_statements moves.1 (by omega),
        Option.bind_some, ih moves.2 (by omega), liveSteps]

theorem liveSteps_append (buffer : Bytes) (left right : List Op) (state : Nat × Nat) :
    liveSteps buffer (left ++ right) state =
      liveSteps buffer right (liveSteps buffer left state) := by
  induction left generalizing state with
  | nil => rfl
  | cons op rest ih => exact ih _

theorem liveSteps_pointer (buffer : Bytes) (ops : List Op) (value pointer : Nat) :
    (liveSteps buffer ops (value, pointer)).2 = pointer + totalOf Op.stride ops := by
  induction ops generalizing value pointer with
  | nil => rfl
  | cons op rest ih => rw [liveSteps, ih, totalOf, Nat.add_assoc]

/-- On a variable that is free of bits from `shift` on, the code does what the step does. -/
theorem Op.live_of_free {op : Op} {shift place pointer : Nat} (moves : op.Moves shift place pointer)
    (narrow : op.width ≤ 128) {value : Nat} (free : ∀ k, shift ≤ k → value.testBit k = false)
    (buffer : Bytes) : op.live pointer buffer value = op.fetch pointer buffer value := by
  have empty : shift = 0 → value = 0 := by
    rintro rfl
    apply Nat.eq_of_testBit_eq
    intro k
    rw [free k (Nat.zero_le k), Nat.zero_testBit]
  cases op with
  | bool i | bit s i | advance | align => rfl
  | byte s =>
      cases s with
      | zero => rw [empty moves.1, Op.live, Op.fetch, Nat.shiftLeft_zero, Nat.zero_or]
      | succ s => rfl
  | bytes count =>
      rw [empty moves.1, Op.live, Op.fetch, Op.live_count narrow, Nat.zero_div, Nat.zero_mul,
        Nat.add_zero]

theorem liveSteps_of_free {shift place pointer : Nat} {ops : List Op}
    (moves : MovesAll shift place pointer ops) (narrow : totalOf Op.width ops ≤ 128) {value : Nat}
    (free : ∀ k, shift ≤ k → value.testBit k = false) (buffer : Bytes) :
    liveSteps buffer ops (value, pointer) = fetchSteps buffer ops (value, pointer) := by
  induction ops generalizing shift place pointer value with
  | nil => rfl
  | cons op rest ih =>
      simp only [totalOf] at narrow
      rw [liveSteps, fetchSteps, Op.live_of_free moves.1 (by omega) free,
        ih moves.2 (by omega) (Op.fetch_free moves.1 (by omega) free buffer)]

/-! ## Integers -/

/-- Bit `n` of an integer is one of a whole byte, when the bits from `shift` on start at a bit of
the current byte. -/
def InByte (remaining shift cursor n : Nat) : Prop :=
  shift ≤ n ∧ (cursor + 7) / 8 * 8 ≤ cursor + (n - shift) ∧
    cursor + (n - shift) < (cursor + remaining) / 8 * 8

instance (remaining shift cursor n : Nat) : Decidable (InByte remaining shift cursor n) :=
  inferInstanceAs (Decidable (_ ∧ _ ∧ _))

theorem liveSteps_nextBit (buffer : Bytes) (cursor value pointer : Nat) :
    liveSteps buffer (nextBit cursor).1 (value, pointer) =
      (value, pointer + totalOf Op.stride (nextBit cursor).1) := by
  unfold nextBit
  split <;> rfl

theorem inByte_bit {remaining cursor : Nat} (part : ¬(8 ≤ remaining ∧ cursor = 0))
    (inside : cursor < 8) (shift n : Nat) :
    InByte (remaining - 1) (shift + 1) (nextBit cursor).2 n ↔ InByte remaining shift cursor n := by
  unfold InByte nextBit
  split <;> dsimp only <;> omega

theorem inByte_byte {remaining : Nat} (whole : 8 ≤ remaining) (shift n : Nat) :
    InByte remaining shift 0 n ↔
      (shift ≤ n ∧ n < shift + 8) ∨ InByte (remaining - 8) (shift + 8) 0 n := by
  unfold InByte
  omega

/-- The bits of a variable behind the code of an integer: they are read from `place` on, and inside
whole bytes they are added to the old ones. -/
def addedBits (buffer : Bytes) (remaining shift place cursor : Nat) (old : Nat → Bool) (n : Nat) :
    Bool :=
  patch shift remaining (fun k => Bytes.bit buffer (place + k)) old n ||
    (old n && decide (InByte remaining shift cursor n))

theorem addedBits_zero (buffer : Bytes) (shift place cursor : Nat)
    (old : Nat → Bool) : addedBits buffer 0 shift place cursor old = old := by
  funext n
  have empty : ¬InByte 0 shift cursor n := by
    unfold InByte
    omega
  rw [addedBits, patch_nothing, decide_eq_false empty, Bool.and_false, Bool.or_false]

theorem addedBits_byte (buffer : Bytes) {remaining : Nat} (whole : 8 ≤ remaining)
    (shift place : Nat) (old : Nat → Bool) :
    addedBits buffer (remaining - 8) (shift + 8) (place + 8) 0 (fun n => old n ||
        patch shift 8 (fun k => Bytes.bit buffer (place + k)) (fun _ => false) n) =
      addedBits buffer remaining shift place 0 old := by
  funext n
  simp only [addedBits]
  by_cases here : shift ≤ n ∧ n < shift + 8
  · have among : InByte remaining shift 0 n := (inByte_byte whole shift n).mpr (.inl here)
    have before : ¬InByte (remaining - 8) (shift + 8) 0 n := by
      unfold InByte
      omega
    rw [patch_outside _ _ (by omega), patch_inside _ _ here.1 here.2,
      patch_inside _ _ here.1 (by omega), decide_eq_true among, decide_eq_false before,
      Bool.and_false, Bool.or_false, Bool.and_true, Bool.or_comm]
  · have same : InByte (remaining - 8) (shift + 8) 0 n ↔ InByte remaining shift 0 n := by
      rw [inByte_byte whole, or_iff_right here]
    have kept :
        (old n || patch shift 8 (fun k => Bytes.bit buffer (place + k)) (fun _ => false) n) =
          patch shift 8 (fun k => Bytes.bit buffer (place + k)) old n := by
      rw [patch_outside _ _ here, patch_outside _ _ here, Bool.or_false]
    rw [patch_old _ _ _ kept, kept, patch_outside _ old here, decide_eq_decide.mpr same]
    simp only [Nat.add_assoc]
    rw [patch_append shift 8 (remaining - 8) (fun k => Bytes.bit buffer (place + k)),
      Nat.add_sub_cancel' whole]

theorem addedBits_bit (buffer : Bytes) {remaining cursor : Nat} (some : remaining ≠ 0)
    (part : ¬(8 ≤ remaining ∧ cursor = 0)) (inside : cursor < 8) (shift place : Nat)
    (old : Nat → Bool) :
    addedBits buffer (remaining - 1) (shift + 1) (place + 1) (nextBit cursor).2
        (patch shift 1 (fun k => Bytes.bit buffer (place + k)) old) =
      addedBits buffer remaining shift place cursor old := by
  funext n
  simp only [addedBits, Nat.add_assoc]
  rw [patch_append shift 1 (remaining - 1) (fun k => Bytes.bit buffer (place + k)),
    Nat.add_sub_cancel' (Nat.one_le_iff_ne_zero.mpr some),
    decide_eq_decide.mpr (inByte_bit part inside shift n)]
  congr 1
  by_cases among : InByte remaining shift cursor n
  · have other : ¬(shift ≤ n ∧ n < shift + 1) := by
      unfold InByte at among
      omega
    rw [patch_outside _ _ other]
  · rw [decide_eq_false among, Bool.and_false, Bool.and_false]

/-- The code of an integer reads all its bits, but those of whole bytes it adds to the old ones. The
one byte that is assigned, at the start of the integer, is left out here. -/
theorem liveSteps_integer (remaining shift pointer : Nat) {cursor : Nat} (inside : cursor < 8)
    (later : 0 < shift ∨ cursor ≠ 0 ∨ remaining < 8) (buffer : Bytes) (value : Nat) :
    (liveSteps buffer (integerOps remaining shift cursor).1 (value, pointer)).1.testBit =
      addedBits buffer remaining shift (8 * pointer + cursor) cursor value.testBit := by
  induction remaining using Nat.strong_induction_on generalizing shift pointer cursor value with
  | _ remaining ih =>
      by_cases none : remaining = 0
      · subst none
        rw [integerOps_zero, addedBits_zero]
        rfl
      · by_cases whole : 8 ≤ remaining ∧ cursor = 0
        · -- a byte at shift zero would be assigned, but then this is not the first step
          obtain ⟨whole, rfl⟩ := whole
          obtain ⟨s, rfl⟩ : ∃ s, shift = s + 1 := ⟨shift - 1, by omega⟩
          have step : ((Op.byte (s + 1)).live pointer buffer value).testBit = fun n =>
              value.testBit n || patch (s + 1) 8 (fun k => Bytes.bit buffer (8 * pointer + k))
                (fun _ => false) n := by
            funext n
            exact Op.testBit_fetch_byte (s + 1) pointer buffer value n
          rw [integerOps_byte whole, liveSteps,
            ih (remaining - 8) (by omega) _ _ inside (by omega), step]
          exact addedBits_byte buffer whole (s + 1) (8 * pointer) value.testBit
        · have reach := (nextBit_carries inside (shift + 1) pointer).reach
          have step : ((Op.bit shift cursor).live pointer buffer value).testBit =
              patch shift 1 (fun k => Bytes.bit buffer (8 * pointer + cursor + k)) value.testBit :=
            Op.testBit_fetch_bit inside shift pointer buffer value
          rw [integerOps_bit none whole, List.cons_append, liveSteps, liveSteps_append,
            liveSteps_nextBit, ih (remaining - 1) (by omega) _ _ (nextBit_lt cursor) (by omega),
            step, Op.stride, Nat.add_zero pointer, reach]
          exact addedBits_bit buffer none whole inside shift (8 * pointer + cursor) value.testBit

/-! ## Fields -/

/-- Bit `n` of the variable of a field is only added to: the field is an integer that does not start
on a byte boundary, and the byte of the bit lies wholly inside it. -/
def Field.Keeps (field : Field) (start n : Nat) : Prop :=
  field.byteAligned = false ∧ start % 8 ≠ 0 ∧ start / 8 < (start + n) / 8 ∧
    (start + n) / 8 < (start + field.bits) / 8

instance (field : Field) (start n : Nat) : Decidable (field.Keeps start n) :=
  inferInstanceAs (Decidable (_ ∧ _ ∧ _ ∧ _))

def Field.kept (field : Field) (start value : Nat) : Nat :=
  Nat.ofBits fun k : Fin field.bits => value.testBit k && decide (field.Keeps start k)

theorem Field.Keeps.lt {field : Field} {start n : Nat} (keeps : field.Keeps start n) :
    n < field.bits := by
  unfold Field.Keeps at keeps
  omega

theorem Field.testBit_kept (field : Field) (start value n : Nat) :
    (field.kept start value).testBit n = (value.testBit n && decide (field.Keeps start n)) := by
  rw [Field.kept, Nat.testBit_ofBits]
  split
  · rfl
  · next behind =>
      rw [decide_eq_false (fun keeps => behind keeps.lt), Bool.and_false]

theorem Field.kept_eq_zero {field : Field} {start : Nat} (never : ∀ n, ¬field.Keeps start n)
    (value : Nat) : field.kept start value = 0 := by
  apply Nat.eq_of_testBit_eq
  intro n
  rw [Field.testBit_kept, decide_eq_false (never n), Bool.and_false, Nat.zero_testBit]

/-- The code of these fields assigns before it adds, so the old value does not matter. -/
theorem fieldOps_restart {cursor next : Nat} {field : Field} {ops : List Op}
    (made : fieldOps cursor field = .ok (ops, next))
    (kind : field.bits = 1 ∨ field.byteAligned = true ∨ (cursor = 0 ∧ 8 ≤ field.bits))
    (buffer : Bytes) {value : Nat} (small : value < 2 ^ field.bits) (pointer : Nat) :
    liveSteps buffer ops (value, pointer) = liveSteps buffer ops (0, pointer) := by
  rcases fieldOps_cases made with ⟨single, rfl, rfl⟩ | ⟨several, aligned, whole, rfl, rfl⟩ |
    ⟨several, loose, rfl, rfl⟩
  · rfl
  · have eighths : 8 * (field.bits / 8) = field.bits := by omega
    have gone : value / Bytes.valueCount (field.bits / 8) = 0 := by
      rw [Bytes.valueCount_eq, eighths]
      exact Nat.div_eq_of_lt small
    split <;> simp [liveSteps, Op.live, Op.fetch, gone]
  · have start : cursor = 0 ∧ 8 ≤ field.bits := by simpa [several, loose] using kind
    obtain ⟨rfl, whole⟩ := start
    rw [integerOps_byte whole]
    rfl

theorem integerOps_live {field : Field} (loose : field.byteAligned = false) {cursor : Nat}
    (inside : cursor < 8) (away : ¬(cursor = 0 ∧ 8 ≤ field.bits)) (buffer : Bytes) {value : Nat}
    (small : value < 2 ^ field.bits) (pointer : Nat) :
    (liveSteps buffer (integerOps field.bits 0 cursor).1 (value, pointer)).1 =
      Bytes.read buffer (8 * pointer + cursor) field.bits |||
        field.kept (8 * pointer + cursor) value := by
  apply Nat.eq_of_testBit_eq
  intro n
  have same : InByte field.bits 0 cursor n ↔ field.Keeps (8 * pointer + cursor) n := by
    simp only [InByte, Field.Keeps, loose, true_and]
    omega
  rw [liveSteps_integer _ _ _ inside (by omega), addedBits, Nat.testBit_or, Field.testBit_kept,
    Bytes.testBit_read, decide_eq_decide.mpr same]
  congr 1
  by_cases first : n < field.bits
  · rw [patch_inside _ _ (Nat.zero_le n) (by omega), if_pos first, Nat.sub_zero]
  · rw [patch_outside _ _ (by omega), if_neg first]
    apply Nat.testBit_lt_two_pow
    exact Nat.lt_of_lt_of_le small (Nat.pow_le_pow_right (by decide) (Nat.le_of_not_lt first))

/-- The variable of a field behind its code: what the telegram says, and the old bits that stay. -/
theorem fieldOps_live {cursor next : Nat} {field : Field} {ops : List Op} (inside : cursor < 8)
    (made : fieldOps cursor field = .ok (ops, next)) (narrow : field.bits ≤ 128) (buffer : Bytes)
    {value : Nat} (small : value < 2 ^ field.bits) (pointer : Nat) :
    (liveSteps buffer ops (value, pointer)).1 =
      Bytes.read buffer (field.start (8 * pointer + cursor)) field.bits |||
        field.kept (field.start (8 * pointer + cursor)) value := by
  have carries := fieldOps_carries inside made pointer
  by_cases kind : field.bits = 1 ∨ field.byteAligned = true ∨ (cursor = 0 ∧ 8 ≤ field.bits)
  · have never : ∀ n, ¬field.Keeps (field.start (8 * pointer + cursor)) n := by
      intro n
      unfold Field.Keeps Field.start
      rcases kind with single | aligned | ⟨boundary, -⟩
      · omega
      · simp [aligned]
      · split <;> omega
    rw [fieldOps_restart made kind buffer small, Field.kept_eq_zero never, Nat.or_zero,
      liveSteps_of_free carries.moves (by rw [carries.count]; exact narrow)
        (fun k _ => Nat.zero_testBit k),
      fetchSteps_read carries.moves carries.count narrow]
  · simp only [not_or, Bool.not_eq_true] at kind
    obtain ⟨several, loose, away⟩ := kind
    rcases fieldOps_cases made with ⟨single, -⟩ | ⟨-, aligned, -⟩ | ⟨-, -, rfl, -⟩
    · exact absurd single several
    · exact absurd aligned (by simp [loose])
    · rw [Field.start_of_loose loose]
      exact integerOps_live loose inside away buffer small pointer

/-! ## Telegrams -/

/-- The variables of a telegram behind its code: what the telegram says, and the old bits that
stay. -/
def liveValues (buffer : Bytes) (slots : List (Nat × Field)) (live : List Nat) : List Nat :=
  slots.mapIdx fun i (start, field) =>
    Bytes.read buffer start field.bits ||| field.kept start (live.getD i 0)

theorem liveValues_cons (buffer : Bytes) (start : Nat) (field : Field) (rest : List (Nat × Field))
    (live : List Nat) :
    liveValues buffer ((start, field) :: rest) live =
      (Bytes.read buffer start field.bits ||| field.kept start (live.headD 0)) ::
        liveValues buffer rest live.tail := by
  unfold liveValues
  rw [List.mapIdx_cons]
  cases live <;> rfl

/-- Every variable is as wide as its field. -/
def Fit (fields : List Field) (live : List Nat) : Prop :=
  live.length = fields.length ∧
    ∀ i field, fields[i]? = some field → live.getD i 0 < 2 ^ field.bits

theorem Fit.cons {field : Field} {rest : List Field} {live : List Nat}
    (fit : Fit (field :: rest) live) : live.headD 0 < 2 ^ field.bits ∧ Fit rest live.tail := by
  obtain ⟨length, small⟩ := fit
  cases live with
  | nil => simp at length
  | cons value live =>
      refine ⟨small 0 field rfl, Nat.succ.inj length, ?_⟩
      intro i other found
      exact small (i + 1) other found

theorem runFields_cons {buffer : Bytes} {field : Field} {ops : List Op} {rest : List PackedField}
    {live : List Nat} {pointer start : Nat} (moves : MovesAll 0 start pointer ops)
    (room : start + totalOf Op.width ops ≤ 8 * buffer.length) :
    runFields buffer ({ field, ops } :: rest) live pointer =
      (runFields buffer rest live.tail (pointer + totalOf Op.stride ops)).map
        ((liveSteps buffer ops (live.headD 0, pointer)).1 :: ·) := by
  rw [runFields, PackedField.statements, runStatements_steps moves room,
    ← liveSteps_pointer buffer ops (live.headD 0) pointer, Option.map_eq_bind]
  rfl

/-- The code of a telegram stays inside the buffer and gives each variable its field and the old
bits that stay. -/
theorem runFields_packFrom {cursor : Nat} {fields : List Field} {packed : List PackedField}
    (inside : cursor < 8) (made : packFrom cursor fields = .ok packed)
    (narrow : ∀ f ∈ fields, f.bits ≤ 128) {live : List Nat} (fit : Fit fields live)
    {buffer : Bytes} (pointer : Nat)
    (room : endFrom (8 * pointer + cursor) fields ≤ 8 * buffer.length) :
    runFields buffer packed live pointer =
      some (liveValues buffer (layoutFrom (8 * pointer + cursor) fields) live) := by
  induction fields generalizing cursor packed live pointer with
  | nil =>
      cases made
      rfl
  | cons field rest ih =>
      obtain ⟨ops, next, tail, first, others, rfl⟩ := packFrom_cons made
      obtain ⟨thin, narrow⟩ := List.forall_mem_cons.mp narrow
      obtain ⟨small, fit⟩ := fit.cons
      have carries := fieldOps_carries inside first pointer
      have upTo := le_endFrom (field.start (8 * pointer + cursor) + field.bits) rest
      have value := fieldOps_live inside first thin buffer small pointer
      cases packFrom_laid inside made pointer with
      | cons moves count later =>
          rw [endFrom] at room
          rw [runFields_cons moves (by omega), layoutFrom, liveValues_cons]
          by_cases last : rest.isEmpty ∧ next ≠ 0
          · -- the closing step moves the pointer alone
            have empty : rest = [] := List.isEmpty_iff.mp last.1
            subst empty
            cases others
            rw [if_pos last, liveSteps_append, ← value]
            rfl
          · rw [if_neg last, value,
              ih (fieldOps_lt inside first) others narrow fit _ (by rwa [carries.reach]),
              carries.reach]
            rfl

section
variable {fields : List Field} {p : Packing}

theorem runCode_eq_liveValues (made : pack fields = .ok p) (narrow : ∀ f ∈ fields, f.bits ≤ 128)
    {buffer : Bytes} (room : p.byteLength ≤ buffer.length) {live : List Nat}
    (fit : Fit fields live) :
    p.runCode buffer live = some (liveValues buffer (layout fields) live) := by
  have inside := pack_room made
  have enough : endFrom 0 fields ≤ 8 * buffer.length := by omega
  exact runFields_packFrom (by decide) (pack_fields made) narrow fit 0 enough

theorem Field.or_kept_eq_iff (field : Field) (start value : Nat) (buffer : Bytes) :
    Bytes.read buffer start field.bits ||| field.kept start value =
        Bytes.read buffer start field.bits ↔
      ∀ n, field.Keeps start n → value.testBit n = true → Bytes.bit buffer (start + n) = true := by
  have bit : ∀ n, field.Keeps start n →
      (Bytes.read buffer start field.bits).testBit n = Bytes.bit buffer (start + n) := by
    intro n keeps
    rw [Bytes.testBit_read, if_pos keeps.lt]
  constructor
  · intro same n keeps old
    rw [← bit n keeps, ← same, Nat.testBit_or, Field.testBit_kept, old, decide_eq_true keeps,
      Bool.and_true, Bool.or_true]
  · intro covered
    apply Nat.eq_of_testBit_eq
    intro n
    rw [Nat.testBit_or, Field.testBit_kept]
    by_cases keeps : field.Keeps start n
    · rw [decide_eq_true keeps, Bool.and_true, bit n keeps, Bool.or_eq_left_iff_imp]
      exact covered n keeps
    · rw [decide_eq_false keeps, Bool.and_false, Bool.or_false]

/-- The code agrees with the sequence if every old bit that stays is set in the telegram, too. -/
theorem liveValues_eq_iff (buffer : Bytes) (slots : List (Nat × Field)) (live : List Nat) :
    liveValues buffer slots live = slots.map (fun slot => Bytes.read buffer slot.1 slot.2.bits) ↔
      ∀ i start field, slots[i]? = some (start, field) → ∀ n, field.Keeps start n →
        (live.getD i 0).testBit n = true → Bytes.bit buffer (start + n) = true := by
  rw [List.ext_getElem?_iff]
  refine forall_congr' fun i => ?_
  rw [liveValues, List.getElem?_mapIdx, List.getElem?_map]
  cases slots[i]? with
  | none => simp only [Option.map_none, reduceCtorEq, false_imp_iff, implies_true]
  | some slot =>
      obtain ⟨start, field⟩ := slot
      simp only [Option.map_some, Option.some.injEq, Prod.mk.injEq]
      rw [Field.or_kept_eq_iff]
      constructor
      · rintro covered _ _ ⟨rfl, rfl⟩
        exact covered
      · intro covered
        exact covered start field ⟨rfl, rfl⟩

/-- No old bit can stay in a field that is byte-aligned, starts on a byte boundary or reaches over
no whole byte. -/
theorem Field.never_keeps_iff (field : Field) (start : Nat) :
    (∀ n, ¬field.Keeps start n) ↔
      field.byteAligned = true ∨ start % 8 = 0 ∨ start % 8 + field.bits < 16 := by
  unfold Field.Keeps
  constructor
  · intro never
    cases aligned : field.byteAligned with
    | true => exact .inl rfl
    | false =>
        -- the first bit behind the byte that the field starts in
        have first := never (8 - start % 8)
        simp only [aligned, true_and] at first
        omega
  · rintro clear n ⟨loose, away, after, before⟩
    rcases clear with aligned | boundary | short
    · exact absurd aligned (by simp [loose])
    · exact away boundary
    · omega

def allOnes (fields : List Field) : List Nat :=
  fields.map fun field => 2 ^ field.bits - 1

theorem allOnes_getD {i : Nat} {field : Field} (found : fields[i]? = some field) :
    (allOnes fields).getD i 0 = 2 ^ field.bits - 1 := by
  rw [allOnes, List.getD_eq_getElem?_getD, List.getElem?_map, found]
  rfl

theorem allOnes_fit (fields : List Field) : Fit fields (allOnes fields) := by
  refine ⟨List.length_map _, ?_⟩
  intro i field found
  rw [allOnes_getD found]
  exact Nat.sub_one_lt (Nat.two_pow_pos _).ne'

/-- If the code agrees on all variables, no old bit can stay: variables with all bits set would show
it in a telegram of zeros. -/
theorem never_keeps (made : pack fields = .ok p) (narrow : ∀ f ∈ fields, f.bits ≤ 128)
    {mode : Overflow} (agree : ∀ buffer live, p.byteLength ≤ buffer.length → Fit fields live →
      p.runCode buffer live = p.scatter mode buffer) {slot : Nat × Field}
    (member : slot ∈ layout fields) (n : Nat) : ¬slot.2.Keeps slot.1 n := by
  intro keeps
  obtain ⟨start, field⟩ := slot
  obtain ⟨i, found⟩ := List.mem_iff_getElem?.mp member
  have here : fields[i]? = some field := by
    rw [← layoutFrom_field 0 fields, List.getElem?_map]
    exact congrArg (Option.map Prod.snd) found
  have old : ((allOnes fields).getD i 0).testBit n = true := by
    rw [allOnes_getD here, Nat.testBit_two_pow_sub_one, decide_eq_true keeps.lt]
  have room : p.byteLength ≤ (List.replicate p.byteLength (0 : UInt8)).length :=
    List.length_replicate.ge
  have same := agree _ _ room (allOnes_fit fields)
  rw [runCode_eq_liveValues made narrow room (allOnes_fit fields), scatter_layout made narrow,
    Option.some.injEq, liveValues_eq_iff] at same
  have set := same i start field found n keeps old
  rw [Bytes.bit_replicate_zero] at set
  cases set

/-- The code that moves a telegram into live variables never reads past the telegram and leaves each
variable with the bits of its field and the old bits that stay. It agrees with the transfer sequence
when these old bits are set in the telegram, and it always agrees just when every integer that
starts inside a byte ends before it reaches over a whole one. -/
theorem runCode_eq_scatter_iff (made : pack fields = .ok p)
    (narrow : ∀ f ∈ fields, f.bits ≤ if f.byteAligned then 128 else 32) (mode : Overflow) :
    (∀ q ∈ p.fields, q.scatterCode = q.statements.flatMap (CStatement.code q.field.symbol)) ∧
    (∀ buffer live, p.byteLength ≤ buffer.length → Fit fields live →
      p.runCode buffer live = some (liveValues buffer (layout fields) live) ∧
      ∃ values, p.scatter mode buffer = some values ∧
        (p.runCode buffer live = some values ↔
          ∀ i start field, (layout fields)[i]? = some (start, field) → ∀ n, field.Keeps start n →
            (live.getD i 0).testBit n = true → Bytes.bit buffer (start + n) = true)) ∧
    ((∀ buffer live, p.byteLength ≤ buffer.length → Fit fields live →
        p.runCode buffer live = p.scatter mode buffer) ↔
      ∀ slot ∈ layout fields,
        slot.2.byteAligned = true ∨ slot.1 % 8 = 0 ∨ slot.1 % 8 + slot.2.bits < 16) := by
  have narrow : ∀ f ∈ fields, f.bits ≤ 128 := by
    intro f member
    have bound := narrow f member
    split at bound <;> omega
  have agrees : ∀ buffer live, p.byteLength ≤ buffer.length → Fit fields live →
      (p.runCode buffer live = p.scatter mode buffer ↔
        ∀ i start field, (layout fields)[i]? = some (start, field) → ∀ n, field.Keeps start n →
          (live.getD i 0).testBit n = true → Bytes.bit buffer (start + n) = true) := by
    intro buffer live room fit
    rw [runCode_eq_liveValues made narrow room fit, scatter_layout made narrow, Option.some.injEq,
      liveValues_eq_iff]
  refine ⟨?_, ?_, ?_⟩
  · intro q _
    exact q.scatterCode_eq
  · intro buffer live room fit
    have read := scatter_layout made narrow mode buffer
    exact ⟨runCode_eq_liveValues made narrow room fit, _, read, read ▸ agrees buffer live room fit⟩
  · constructor
    · intro agree slot member
      exact (slot.2.never_keeps_iff slot.1).mp (never_keeps made narrow agree member)
    · intro clear buffer live room fit
      rw [agrees buffer live room fit]
      intro i start field found n keeps
      have short := clear (start, field) (List.mem_of_getElem? found)
      exact absurd keeps ((field.never_keeps_iff start).mpr short n)

end

/-- A switch and an integer that reaches over a whole byte. -/
def counterFields : List Field :=
  [⟨"flag", 1, false⟩, ⟨"count", 16, false⟩]

def counterPacking : Packing :=
  ⟨[⟨⟨"flag", 1, false⟩, [.bool 0]⟩,
    ⟨⟨"count", 16, false⟩, [.bit 0 1, .bit 1 2, .bit 2 3, .bit 3 4, .bit 4 5, .bit 5 6, .bit 6 7,
      .advance, .byte 7, .bit 15 0, .align]⟩]⟩

/-- A full counter that is reset by a telegram of zeros keeps its middle byte. -/
theorem runCode_counter :
    pack counterFields = .ok counterPacking ∧
    (∀ f ∈ counterFields, f.bits ≤ if f.byteAligned then 128 else 32) ∧
    counterPacking.byteLength ≤ [0, 0, 0].length ∧ Fit counterFields [0, 0xffff] ∧
    counterPacking.scatter .trap [0, 0, 0] = some [0, 0] ∧
    counterPacking.runCode [0, 0, 0] [0, 0xffff] = some [0, 0x7f80] := by
  have made : pack counterFields = .ok counterPacking := by decide +kernel
  have narrow : ∀ f ∈ counterFields, f.bits ≤ if f.byteAligned then 128 else 32 := by decide
  have fit : Fit counterFields [0, 0xffff] := by
    refine ⟨rfl, ?_⟩
    rintro (_ | _ | i) field found
    · cases found
      decide
    · cases found
      decide
    · cases found
  have run := ((runCode_eq_scatter_iff made narrow .trap).2.1 [0, 0, 0] _ (by decide) fit).1
  exact ⟨made, narrow, by decide, fit, by decide +kernel, run.trans (by decide +kernel)⟩

end EcatDevice.ProcessData
