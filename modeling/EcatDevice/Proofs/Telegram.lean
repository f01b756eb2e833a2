import EcatDevice.Proofs.Bits
import EcatDevice.Proofs.Layout

/-! # Telegrams and live values

Running a transfer sequence into a buffer places the bits of every value where the layout says, and
running it out of a buffer reads them from there. Both runs are followed step by step along `Moves`;
what is left is the layout alone, so the two directions never meet the synthesis.

The steps are first followed on numbers without a width, where no run can stop. As long as every
field fits into a live value, the steps on live values do the same.
-/

namespace EcatDevice.ProcessData

/-! ## One step -/

/-- What a step moves into the buffer, were live values as wide as their fields. -/
def Op.put (value position : Nat) (buffer : Bytes) : Op → Bytes
  | .bool i => buffer.modify position (setBit · i (value.testBit 0))
  | .bit shift i => buffer.modify position (setBit · i (value.testBit shift))
  | .byte shift => buffer.set position (UInt8.ofNat (value >>> shift))
  | .bytes count => overwrite buffer position (Bytes.littleEndian (min count liveBytes) value)
  | .advance => buffer
  | .align => buffer

/-- What a step moves out of the buffer, were live values as wide as their fields. -/
def Op.fetch (position : Nat) (buffer : Bytes) (value : Nat) : Op → Nat
  | .bool i => if (buffer.getD position 0).toNat.testBit i then 1 else 0
  | .bit shift i =>
    if (buffer.getD position 0).toNat.testBit i then value ||| (1 <<< shift)
    else value - (value &&& (1 <<< shift))
  | .byte shift => value ||| ((buffer.getD position 0).toNat <<< shift)
  | .bytes count => Bytes.toNat ((buffer.drop position).take (min count liveBytes))
  | .advance => value
  | .align => value

@[simp] theorem Op.length_put (op : Op) (value position : Nat) (buffer : Bytes) :
    (op.put value position buffer).length = buffer.length := by
  cases op <;> simp only [Op.put, List.length_modify, List.length_set, length_overwrite]

theorem Op.live_count {count : Nat} (narrow : (Op.bytes count).width ≤ 128) :
    min count liveBytes = count := by
  simp only [Op.width] at narrow
  unfold liveBytes
  omega

/-- A step into the buffer writes the bits it moves, and no other. -/
theorem Op.bit_put {op : Op} {shift place pointer : Nat} (moves : op.Moves shift place pointer)
    (narrow : op.width ≤ 128) {buffer : Bytes} (room : place + op.width ≤ 8 * buffer.length)
    (value : Nat) :
    Bytes.bit (op.put value pointer buffer) =
      patch place op.width (fun k => value.testBit (shift + k)) (Bytes.bit buffer) := by
  cases op with
  | bool i | bit s i =>
      obtain ⟨rfl, inside, rfl⟩ := moves
      simp only [Op.width] at room
      rw [Op.put, bit_modify_setBit (by omega) inside]
      apply patch_congr
      intro k first
      rw [Nat.lt_one_iff.mp first, Nat.add_zero]
  | byte s =>
      obtain ⟨rfl, rfl⟩ := moves
      simp only [Op.width] at room
      rw [Op.put, Bytes.bit_set (by omega)]
      apply patch_congr
      intro k small
      rw [UInt8.toNat_ofNat', Nat.testBit_mod_two_pow, Nat.testBit_shiftRight, decide_eq_true small,
        Bool.true_and]
  | bytes count =>
      obtain ⟨rfl, rfl⟩ := moves
      simp only [Op.width] at room
      rw [Op.put, Op.live_count narrow,
        bit_overwrite (by rw [Bytes.length_littleEndian]; omega), Bytes.length_littleEndian]
      apply patch_congr
      intro k small
      rw [Bytes.bit_littleEndian _ small, Nat.zero_add]
  | advance | align => exact (patch_nothing _ _ _).symm

theorem testBit_one_or_zero (on : Bool) (n : Nat) :
    (if on then 1 else 0).testBit n = (decide (n = 0) && on) := by
  cases n <;> cases on <;> simp [Nat.testBit_succ]

/-- A single bit of an integer is set or cleared. -/
theorem Op.testBit_fetch_bit {i : Nat} (inside : i < 8) (shift pointer : Nat) (buffer : Bytes)
    (value : Nat) :
    ((Op.bit shift i).fetch pointer buffer value).testBit =
      patch shift 1 (fun k => Bytes.bit buffer (8 * pointer + i + k)) value.testBit := by
  funext n
  rw [Op.fetch, ← Bytes.bit_at buffer pointer inside, Nat.one_shiftLeft]
  by_cases here : n = shift
  · subst here
    rw [patch_inside _ _ (le_refl n) (by omega), Nat.sub_self, Nat.add_zero]
    cases read : Bytes.bit buffer (8 * pointer + i) with
    | true => simp [Nat.testBit_or]
    | false => simp [testBit_sub_and]
  · rw [patch_outside _ _ (by omega)]
    have other : (2 ^ shift).testBit n = false := Nat.testBit_two_pow_of_ne (Ne.symm here)
    cases read : Bytes.bit buffer (8 * pointer + i) with
    | true => simp [Nat.testBit_or, other]
    | false => simp [testBit_sub_and, other]

/-- A byte of an integer is added to what is there. -/
theorem Op.testBit_fetch_byte (shift pointer : Nat) (buffer : Bytes) (value n : Nat) :
    ((Op.byte shift).fetch pointer buffer value).testBit n =
      (value.testBit n ||
        patch shift 8 (fun k => Bytes.bit buffer (8 * pointer + k)) (fun _ => false) n) := by
  rw [Op.fetch, Nat.testBit_or, Nat.testBit_shiftLeft]
  congr 1
  by_cases here : shift ≤ n ∧ n < shift + 8
  · have small : n - shift < 8 := by omega
    rw [patch_inside _ _ here.1 here.2, Bytes.bit_at buffer pointer small, decide_eq_true here.1,
      Bool.true_and]
  · rw [patch_outside _ _ here]
    by_cases low : shift ≤ n
    · have large : 8 ≤ n - shift := by omega
      rw [Bytes.testBit_byte large, Bool.and_false]
    · rw [decide_eq_false low, Bool.false_and]

/-- A step out of the buffer reads the bits it moves. The value has to be free of bits from there
on, because a byte is merely added to it. -/
theorem Op.testBit_fetch {op : Op} {shift place pointer : Nat}
    (moves : op.Moves shift place pointer) (narrow : op.width ≤ 128) {value : Nat}
    (free : ∀ k, shift ≤ k → value.testBit k = false) (buffer : Bytes) :
    (op.fetch pointer buffer value).testBit =
      patch shift op.width (fun k => Bytes.bit buffer (place + k)) value.testBit := by
  cases op with
  | bool i =>
      obtain ⟨rfl, inside, rfl⟩ := moves
      funext n
      rw [Op.fetch, ← Bytes.bit_at buffer pointer inside, testBit_one_or_zero]
      by_cases first : n = 0
      · subst first
        rw [patch_inside _ _ (le_refl 0) (by simp only [Op.width]; omega)]
        rfl
      · rw [patch_outside _ _ (by simp only [Op.width]; omega), free n (Nat.zero_le n),
          decide_eq_false first, Bool.false_and]
  | bit s i =>
      obtain ⟨rfl, inside, rfl⟩ := moves
      exact Op.testBit_fetch_bit inside shift pointer buffer value
  | byte s =>
      obtain ⟨rfl, rfl⟩ := moves
      funext n
      rw [Op.testBit_fetch_byte, Op.width]
      by_cases here : shift ≤ n ∧ n < shift + 8
      · rw [free n here.1, Bool.false_or, patch_inside _ _ here.1 here.2,
          patch_inside _ _ here.1 here.2]
      · rw [patch_outside _ _ here, patch_outside _ _ here, Bool.or_false]
  | bytes count =>
      obtain ⟨rfl, rfl⟩ := moves
      funext n
      rw [Op.fetch, Op.live_count narrow, Bytes.testBit_toNat, Bytes.bit_slice]
      by_cases here : n < 8 * count
      · rw [if_pos here, patch_inside _ _ (Nat.zero_le n) (by simp only [Op.width]; omega),
          Nat.sub_zero]
      · rw [if_neg here, patch_outside _ _ (by simp only [Op.width]; omega), free n (Nat.zero_le n)]
  | advance | align => exact (patch_nothing _ _ _).symm

theorem Op.fetch_free {op : Op} {shift place pointer : Nat}
    (moves : op.Moves shift place pointer) (narrow : op.width ≤ 128) {value : Nat}
    (free : ∀ k, shift ≤ k → value.testBit k = false) (buffer : Bytes) :
    ∀ k, shift + op.width ≤ k → (op.fetch pointer buffer value).testBit k = false := by
  intro k behind
  rw [Op.testBit_fetch moves narrow free, patch_outside _ _ (by omega), free k (by omega)]

/-! ## One field -/

/-- Runs steps into the buffer: the buffer and the pointer behind. -/
def putSteps (value : Nat) : List Op → Bytes × Nat → Bytes × Nat
  | [], state => state
  | op :: rest, (buffer, pointer) =>
    putSteps value rest (op.put value pointer buffer, pointer + op.stride)

/-- Runs steps out of the buffer: the value and the pointer behind. -/
def fetchSteps (buffer : Bytes) : List Op → Nat × Nat → Nat × Nat
  | [], state => state
  | op :: rest, (value, pointer) =>
    fetchSteps buffer rest (op.fetch pointer buffer value, pointer + op.stride)

@[simp] theorem putSteps_length (value : Nat) (ops : List Op) (buffer : Bytes) (pointer : Nat) :
    (putSteps value ops (buffer, pointer)).1.length = buffer.length := by
  induction ops generalizing buffer pointer with
  | nil => rfl
  | cons op rest ih => rw [putSteps, ih, Op.length_put]

theorem putSteps_pointer (value : Nat) (ops : List Op) (buffer : Bytes) (pointer : Nat) :
    (putSteps value ops (buffer, pointer)).2 = pointer + totalOf Op.stride ops := by
  induction ops generalizing buffer pointer with
  | nil => rfl
  | cons op rest ih => rw [putSteps, ih, totalOf, Nat.add_assoc]

theorem fetchSteps_pointer (buffer : Bytes) (ops : List Op) (value pointer : Nat) :
    (fetchSteps buffer ops (value, pointer)).2 = pointer + totalOf Op.stride ops := by
  induction ops generalizing value pointer with
  | nil => rfl
  | cons op rest ih => rw [fetchSteps, ih, totalOf, Nat.add_assoc]

theorem putSteps_bit {shift place pointer : Nat} {ops : List Op}
    (moves : MovesAll shift place pointer ops) (narrow : totalOf Op.width ops ≤ 128)
    {buffer : Bytes} (room : place + totalOf Op.width ops ≤ 8 * buffer.length) (value : Nat) :
    Bytes.bit (putSteps value ops (buffer, pointer)).1 =
      patch place (totalOf Op.width ops) (fun k => value.testBit (shift + k))
        (Bytes.bit buffer) := by
  induction ops generalizing shift place pointer buffer with
  | nil => exact (patch_nothing _ _ _).symm
  | cons op rest ih =>
      simp only [totalOf] at narrow room ⊢
      rw [putSteps, ih moves.2 (by omega) (by rw [Op.length_put]; omega),
        Op.bit_put moves.1 (by omega) (by omega), ← patch_append]
      simp only [Nat.add_assoc]

/-- A run out of the buffer reads the bits it moves into a value that is free of bits from there
on. -/
theorem fetchSteps_testBit {shift place pointer : Nat} {ops : List Op}
    (moves : MovesAll shift place pointer ops) (narrow : totalOf Op.width ops ≤ 128) {value : Nat}
    (free : ∀ k, shift ≤ k → value.testBit k = false) (buffer : Bytes) :
    (fetchSteps buffer ops (value, pointer)).1.testBit =
      patch shift (totalOf Op.width ops) (fun k => Bytes.bit buffer (place + k)) value.testBit := by
  induction ops generalizing shift place pointer value with
  | nil => exact (patch_nothing _ _ _).symm
  | cons op rest ih =>
      simp only [totalOf] at narrow ⊢
      rw [fetchSteps,
        ih moves.2 (by omega) (Op.fetch_free moves.1 (by omega) free buffer),
        Op.testBit_fetch moves.1 (by omega) free, ← patch_append]
      simp only [Nat.add_assoc]

/-- A field that starts from zero holds the bits of its place. -/
theorem fetchSteps_read {start pointer width : Nat} {ops : List Op}
    (moves : MovesAll 0 start pointer ops) (count : totalOf Op.width ops = width)
    (narrow : width ≤ 128) (buffer : Bytes) :
    (fetchSteps buffer ops (0, pointer)).1 = Bytes.read buffer start width := by
  apply Nat.eq_of_testBit_eq
  intro n
  rw [fetchSteps_testBit moves (by omega) (fun k _ => Nat.zero_testBit k), count,
    Bytes.testBit_read]
  by_cases inside : n < width
  · rw [if_pos inside, patch_inside _ _ (Nat.zero_le n) (by omega), Nat.sub_zero]
  · rw [if_neg inside, patch_outside _ _ (by omega), Nat.zero_testBit]

/-! ## Whole telegrams -/

def putFields : List PackedField → List Nat → Bytes × Nat → Bytes × Nat
  | [], _, state => state
  | p :: rest, values, state => putFields rest values.tail (putSteps (values.headD 0) p.ops state)

def fetchFields (buffer : Bytes) : List PackedField → Nat → List Nat
  | [], _ => []
  | p :: rest, pointer =>
    (fetchSteps buffer p.ops (0, pointer)).1 ::
      fetchFields buffer rest (fetchSteps buffer p.ops (0, pointer)).2

theorem putFields_cons (field : Field) (ops : List Op) (packed : List PackedField)
    (values : List Nat) (buffer : Bytes) (pointer : Nat) :
    putFields ({ field, ops } :: packed) values (buffer, pointer) =
      putFields packed values.tail
        ((putSteps (values.headD 0) ops (buffer, pointer)).1, pointer + totalOf Op.stride ops) := by
  rw [putFields, ← putSteps_pointer (values.headD 0) ops buffer]

@[simp] theorem putFields_length (packed : List PackedField) (values : List Nat) (buffer : Bytes)
    (pointer : Nat) :
    (putFields packed values (buffer, pointer)).1.length = buffer.length := by
  induction packed generalizing values buffer pointer with
  | nil => rfl
  | cons p rest ih =>
      obtain ⟨field, ops⟩ := p
      rw [putFields_cons, ih, putSteps_length]

/-- Bits that belong to no field stay as they were. -/
theorem putFields_frame {cursor pointer : Nat} {fields : List Field} {packed : List PackedField}
    (laid : Laid cursor pointer fields packed) (narrow : ∀ f ∈ fields, f.bits ≤ 128)
    {buffer : Bytes} (room : endFrom cursor fields ≤ 8 * buffer.length) (values : List Nat)
    {n : Nat} (free : ∀ slot ∈ layoutFrom cursor fields, ¬(slot.1 ≤ n ∧ n < slot.1 + slot.2.bits)) :
    Bytes.bit (putFields packed values (buffer, pointer)).1 n = Bytes.bit buffer n := by
  induction laid generalizing buffer values with
  | nil => rfl
  | @cons cursor pointer field ops fields packed moves width _ ih =>
      obtain ⟨small, narrow⟩ := List.forall_mem_cons.mp narrow
      obtain ⟨outside, free⟩ := List.forall_mem_cons.mp free
      have reach := le_endFrom (field.start cursor + field.bits) fields
      rw [endFrom] at room
      rw [putFields_cons, ih narrow (by rw [putSteps_length]; exact room) _ free,
        putSteps_bit moves (by omega) (by omega), width, patch_outside _ _ outside]

theorem putFields_field {cursor pointer : Nat} {fields : List Field} {packed : List PackedField}
    (laid : Laid cursor pointer fields packed) (narrow : ∀ f ∈ fields, f.bits ≤ 128)
    {buffer : Bytes} (room : endFrom cursor fields ≤ 8 * buffer.length) (values : List Nat)
    {i start n : Nat} {field : Field} (slot : (layoutFrom cursor fields)[i]? = some (start, field))
    (lower : start ≤ n) (upper : n < start + field.bits) :
    Bytes.bit (putFields packed values (buffer, pointer)).1 n =
      (values.getD i 0).testBit (n - start) := by
  induction laid generalizing buffer values i with
  | nil => simp [layoutFrom] at slot
  | @cons cursor pointer head ops fields packed moves width laid ih =>
      obtain ⟨small, narrow⟩ := List.forall_mem_cons.mp narrow
      have reach := le_endFrom (head.start cursor + head.bits) fields
      rw [endFrom] at room
      have roomLater : endFrom (head.start cursor + head.bits) fields ≤
          8 * (putSteps (values.headD 0) ops (buffer, pointer)).1.length := by
        rw [putSteps_length]
        exact room
      rw [layoutFrom] at slot
      rw [putFields_cons]
      cases i with
      | zero =>
          obtain ⟨rfl, rfl⟩ := Prod.mk.inj (Option.some.inj slot)
          have free : ∀ slot ∈ layoutFrom (head.start cursor + head.bits) fields,
              ¬(slot.1 ≤ n ∧ n < slot.1 + slot.2.bits) := by
            intro slot later inside
            have behind := (layoutFrom_bounds later).1
            omega
          rw [putFields_frame laid narrow roomLater _ free,
            putSteps_bit moves (by omega) (by omega), patch_inside _ _ lower (by omega),
            Nat.zero_add]
          cases values <;> rfl
      | succ i =>
          rw [List.getElem?_cons_succ] at slot
          rw [ih narrow roomLater _ slot]
          cases values <;> rfl

theorem fetchFields_cons (field : Field) (ops : List Op) (packed : List PackedField)
    (buffer : Bytes) (pointer : Nat) :
    fetchFields buffer ({ field, ops } :: packed) pointer =
      (fetchSteps buffer ops (0, pointer)).1 ::
        fetchFields buffer packed (pointer + totalOf Op.stride ops) := by
  rw [fetchFields, ← fetchSteps_pointer buffer ops 0]

theorem fetchFields_layout {cursor pointer : Nat} {fields : List Field} {packed : List PackedField}
    (laid : Laid cursor pointer fields packed) (narrow : ∀ f ∈ fields, f.bits ≤ 128)
    (buffer : Bytes) :
    fetchFields buffer packed pointer =
      (layoutFrom cursor fields).map fun slot => Bytes.read buffer slot.1 slot.2.bits := by
  induction laid with
  | nil => rfl
  | @cons cursor pointer field ops fields packed moves width _ ih =>
      obtain ⟨small, narrow⟩ := List.forall_mem_cons.mp narrow
      rw [fetchFields_cons, layoutFrom, List.map_cons, ih narrow,
        fetchSteps_read moves width small]

/-! ## Runs on live values -/

/-- The step shifts nothing out of a live value. -/
def Op.Inside : Op → Prop
  | .bit shift _ => shift < liveBits
  | .byte shift => shift + 8 ≤ liveBits
  | _ => True

theorem Overflow.shift?_of_lt (mode : Overflow) {amount : Nat} (small : amount < liveBits) :
    mode.shift? amount = some amount :=
  if_pos small

theorem Op.collect_of_inside {op : Op} (inside : op.Inside) (mode : Overflow)
    (value position : Nat) (buffer : Bytes) :
    op.collect mode value position buffer = some (op.put value position buffer) := by
  cases op with
  | bit shift i =>
      have small : shift < liveBits := inside
      rw [Op.collect, mode.shift?_of_lt small]
      rfl
  | byte shift =>
      have small : shift < liveBits := Nat.lt_of_lt_of_le (by omega) inside
      rw [Op.collect, mode.shift?_of_lt small]
      rfl
  | bool i | bytes count | advance | align => rfl

theorem Op.scatter_of_inside {op : Op} (inside : op.Inside) (mode : Overflow) (position : Nat)
    (buffer : Bytes) (value : Nat) :
    op.scatter mode position buffer value = some (op.fetch position buffer value) := by
  cases op with
  | bit shift i =>
      have small : shift < liveBits := inside
      rw [Op.scatter, mode.shift?_of_lt small]
      rfl
  | byte shift =>
      have small : shift < liveBits := Nat.lt_of_lt_of_le (by omega) inside
      have whole : (buffer.getD position 0).toNat <<< shift < Bytes.valueCount liveBytes := by
        rw [Nat.shiftLeft_eq, Bytes.valueCount_eq]
        calc
          (buffer.getD position 0).toNat * 2 ^ shift < 2 ^ 8 * 2 ^ shift :=
            Nat.mul_lt_mul_of_pos_right (UInt8.toNat_lt _) (Nat.two_pow_pos shift)
          _ = 2 ^ (shift + 8) := by rw [← Nat.pow_add, Nat.add_comm]
          _ ≤ 2 ^ (8 * liveBytes) := Nat.pow_le_pow_right (by decide) inside
      rw [Op.scatter, mode.shift?_of_lt small, Op.fetch, Option.bind_eq_bind, Option.bind_some,
        Nat.mod_eq_of_lt whole]
      rfl
  | bool i | bytes count | advance | align => rfl

theorem Op.Moves.inside {op : Op} {shift place pointer : Nat} (moves : op.Moves shift place pointer)
    (narrow : shift + op.width ≤ 128) : op.Inside := by
  cases op with
  | bit s i =>
      obtain ⟨rfl, -⟩ := moves
      exact narrow
  | byte s =>
      obtain ⟨rfl, -⟩ := moves
      exact narrow
  | bool i | bytes count | advance | align => trivial

theorem MovesAll.inside {shift place pointer : Nat} {ops : List Op}
    (moves : MovesAll shift place pointer ops) (narrow : shift + totalOf Op.width ops ≤ 128) :
    ∀ op ∈ ops, op.Inside := by
  induction ops generalizing shift place pointer with
  | nil => exact List.forall_mem_nil _
  | cons op rest ih =>
      simp only [totalOf] at narrow
      exact List.forall_mem_cons.mpr ⟨moves.1.inside (by omega), ih moves.2 (by omega)⟩

theorem PackedField.collect_of_inside {p : PackedField} (inside : ∀ op ∈ p.ops, op.Inside)
    (mode : Overflow) (value : Nat) (state : Bytes × Nat) :
    p.collect mode value state = some (putSteps value p.ops state) := by
  obtain ⟨field, ops⟩ := p
  unfold PackedField.collect
  dsimp only at inside ⊢
  induction ops generalizing state with
  | nil => rfl
  | cons op rest ih =>
      obtain ⟨first, others⟩ := List.forall_mem_cons.mp inside
      rw [List.foldlM_cons, op.collect_of_inside first]
      exact ih _ others

theorem PackedField.scatter_of_inside {p : PackedField} (inside : ∀ op ∈ p.ops, op.Inside)
    (mode : Overflow) (buffer : Bytes) (pointer : Nat) :
    p.scatter mode buffer pointer = some (fetchSteps buffer p.ops (0, pointer)) := by
  obtain ⟨field, ops⟩ := p
  unfold PackedField.scatter
  dsimp only at inside ⊢
  generalize (0, pointer) = state
  induction ops generalizing state with
  | nil => rfl
  | cons op rest ih =>
      obtain ⟨first, others⟩ := List.forall_mem_cons.mp inside
      rw [List.foldlM_cons, op.scatter_of_inside first]
      exact ih others _

theorem collectFrom_of_inside {packed : List PackedField}
    (inside : ∀ p ∈ packed, ∀ op ∈ p.ops, op.Inside) (mode : Overflow) (values : List Nat)
    (state : Bytes × Nat) :
    Packing.collectFrom mode packed values state = some (putFields packed values state) := by
  induction packed generalizing values state with
  | nil => rfl
  | cons p rest ih =>
      obtain ⟨first, others⟩ := List.forall_mem_cons.mp inside
      rw [Packing.collectFrom, p.collect_of_inside first]
      exact ih others _ _

theorem scatterFrom_of_inside {packed : List PackedField}
    (inside : ∀ p ∈ packed, ∀ op ∈ p.ops, op.Inside) (mode : Overflow) (buffer : Bytes)
    (pointer : Nat) :
    Packing.scatterFrom mode buffer packed pointer = some (fetchFields buffer packed pointer) := by
  induction packed generalizing pointer with
  | nil => rfl
  | cons p rest ih =>
      obtain ⟨first, others⟩ := List.forall_mem_cons.mp inside
      rw [Packing.scatterFrom, p.scatter_of_inside first]
      simp only [Option.bind_eq_bind, Option.bind_some, ih others]
      rfl

/-- Steps of fields that fit into a live value shift nothing out of it. -/
theorem Laid.inside {cursor pointer : Nat} {fields : List Field} {packed : List PackedField}
    (laid : Laid cursor pointer fields packed) (narrow : ∀ f ∈ fields, f.bits ≤ 128) :
    ∀ p ∈ packed, ∀ op ∈ p.ops, op.Inside := by
  induction laid with
  | nil => exact List.forall_mem_nil _
  | cons moves width _ ih =>
      obtain ⟨small, narrow⟩ := List.forall_mem_cons.mp narrow
      exact List.forall_mem_cons.mpr ⟨moves.inside (by omega), ih narrow⟩

/-- The telegram of a row of values. -/
def Packing.telegram (p : Packing) (values : List Nat) : Bytes :=
  (putFields p.fields values (List.replicate p.byteLength 0, 0)).1

section
variable {fields : List Field} {p : Packing}

theorem collect_eq (made : pack fields = .ok p) (narrow : ∀ f ∈ fields, f.bits ≤ 128)
    (mode : Overflow) (values : List Nat) : p.collect mode values = some (p.telegram values) := by
  rw [Packing.collect, collectFrom_of_inside ((pack_laid made).inside narrow)]
  rfl

/-- Running a sequence out of a buffer reads every field from its place. -/
theorem scatter_layout (made : pack fields = .ok p) (narrow : ∀ f ∈ fields, f.bits ≤ 128)
    (mode : Overflow) (buffer : Bytes) :
    p.scatter mode buffer =
      some ((layout fields).map fun slot => Bytes.read buffer slot.1 slot.2.bits) := by
  rw [Packing.scatter, scatterFrom_of_inside ((pack_laid made).inside narrow),
    fetchFields_layout (pack_laid made) narrow]
  rfl

theorem telegram_length (p : Packing) (values : List Nat) :
    (p.telegram values).length = p.byteLength := by
  rw [Packing.telegram, putFields_length, List.length_replicate]

theorem zeros_room (made : pack fields = .ok p) :
    endFrom 0 fields ≤ 8 * (List.replicate p.byteLength (0 : UInt8)).length := by
  rw [List.length_replicate]
  exact pack_room made

theorem telegram_field (made : pack fields = .ok p) (narrow : ∀ f ∈ fields, f.bits ≤ 128)
    (values : List Nat) {i start n : Nat} {field : Field}
    (slot : (layout fields)[i]? = some (start, field)) (lower : start ≤ n)
    (upper : n < start + field.bits) :
    Bytes.bit (p.telegram values) n = (values.getD i 0).testBit (n - start) :=
  putFields_field (pack_laid made) narrow (zeros_room made) values slot lower upper

theorem telegram_gap (made : pack fields = .ok p) (narrow : ∀ f ∈ fields, f.bits ≤ 128)
    (values : List Nat) {n : Nat} (free : ∀ i, ¬Covers fields i n) :
    Bytes.bit (p.telegram values) n = false := by
  have outside : ∀ slot ∈ layoutFrom 0 fields, ¬(slot.1 ≤ n ∧ n < slot.1 + slot.2.bits) := by
    intro slot member inside
    obtain ⟨i, found⟩ := List.mem_iff_getElem?.mp member
    exact free i ⟨slot.1, slot.2, found, inside⟩
  rw [Packing.telegram,
    putFields_frame (pack_laid made) narrow (zeros_room made) values outside]
  exact Bytes.bit_replicate_zero _ _

theorem slot_inside (made : pack fields = .ok p) {i start n : Nat} {field : Field}
    (slot : (layout fields)[i]? = some (start, field)) (upper : n < start + field.bits) :
    n < 8 * p.byteLength := by
  have bound := (layoutFrom_bounds (List.mem_of_getElem? slot)).2
  have room := pack_room made
  omega

/-- A field of a telegram reads the low bits of the value that was written to it. -/
theorem read_telegram (made : pack fields = .ok p) (narrow : ∀ f ∈ fields, f.bits ≤ 128)
    (values : List Nat) {i start : Nat} {field : Field}
    (slot : (layout fields)[i]? = some (start, field)) (rest : Bytes) :
    Bytes.read (p.telegram values ++ rest) start field.bits =
      values.getD i 0 % 2 ^ field.bits := by
  apply Nat.eq_of_testBit_eq
  intro k
  rw [Bytes.testBit_read, Nat.testBit_mod_two_pow]
  by_cases inside : k < field.bits
  · have upper : start + k < start + field.bits := by omega
    have written := slot_inside made slot upper
    rw [← telegram_length p values] at written
    rw [if_pos inside, decide_eq_true inside, Bool.true_and, Bytes.bit_append rest written,
      telegram_field made narrow values slot (Nat.le_add_right start k) upper,
      Nat.add_sub_cancel_left]
  · rw [if_neg inside, decide_eq_false inside, Bool.false_and]

/-- Decoding undoes encoding: every field reads back the low bits of its value, whatever follows the
telegram. -/
theorem scatter_collect (made : pack fields = .ok p) (narrow : ∀ f ∈ fields, f.bits ≤ 128)
    (mode : Overflow) (values : List Nat) (rest : Bytes) :
    ∃ telegram live, p.collect mode values = some telegram ∧
      p.scatter mode (telegram ++ rest) = some live ∧ live.length = fields.length ∧
      ∀ i field, fields[i]? = some field →
        live[i]? = some (values.getD i 0 % 2 ^ field.bits) := by
  refine ⟨_, _, collect_eq made narrow mode values, scatter_layout made narrow mode _, ?_, ?_⟩
  · rw [List.length_map, layout, ← List.length_map Prod.snd, layoutFrom_field]
  · intro i field found
    obtain ⟨start, slot⟩ := layout_getElem? found
    rw [List.getElem?_map, slot, Option.map_some, read_telegram made narrow values slot rest]

theorem scatter_collect_sample :
    pack sampleFields = .ok samplePacking ∧ (∀ f ∈ sampleFields, f.bits ≤ 128) ∧
    ∃ telegram live, samplePacking.collect .trap [3, 0x5fffe, 0x14241] = some telegram ∧
      samplePacking.scatter .trap (telegram ++ [0xff]) = some live ∧ live.length = 3 ∧
      live[1]? = some 0x1fffe := by
  obtain ⟨telegram, live, collected, scattered, length, values⟩ :=
    scatter_collect pack_sample sample_narrow .trap [3, 0x5fffe, 0x14241] [0xff]
  exact ⟨pack_sample, sample_narrow, telegram, live, collected, scattered, length,
    values 1 ⟨"level", 18, false⟩ rfl⟩

/-! ## Where steps write -/

/-- Steps from a pointer on, each with the pointer it runs at. -/
def stepsFrom (pointer : Nat) : List Op → List (Nat × Op)
  | [] => []
  | op :: rest => (pointer, op) :: stepsFrom (pointer + op.stride) rest

def Packing.steps (p : Packing) : List (Nat × Op) :=
  stepsFrom 0 (p.fields.flatMap PackedField.ops)

theorem stepsFrom_append (pointer : Nat) (left right : List Op) :
    stepsFrom pointer (left ++ right) =
      stepsFrom pointer left ++ stepsFrom (pointer + totalOf Op.stride left) right := by
  induction left generalizing pointer with
  | nil => rfl
  | cons op rest ih => simp only [List.cons_append, stepsFrom, ih, totalOf, Nat.add_assoc]

theorem mem_of_stepsFrom {pointer : Nat} {ops : List Op} {step : Nat × Op}
    (member : step ∈ stepsFrom pointer ops) : step.2 ∈ ops := by
  induction ops generalizing pointer with
  | nil => cases member
  | cons op rest ih =>
      rcases List.mem_cons.mp member with rfl | later
      · exact List.mem_cons_self
      · exact List.mem_cons_of_mem _ (ih later)

theorem stepsFrom_moves {shift place pointer : Nat} {ops : List Op}
    (moves : MovesAll shift place pointer ops) {step : Nat × Op}
    (member : step ∈ stepsFrom pointer ops) :
    ∃ shift' place', step.2.Moves shift' place' step.1 ∧
      place' + step.2.width ≤ place + totalOf Op.width ops := by
  induction ops generalizing shift place pointer with
  | nil => cases member
  | cons op rest ih =>
      rcases List.mem_cons.mp member with rfl | later
      · exact ⟨shift, place, moves.1, by simp only [totalOf]; omega⟩
      · obtain ⟨shift', place', here, bound⟩ := ih moves.2 later
        exact ⟨shift', place', here, by simp only [totalOf]; omega⟩

/-- Every step of a telegram moves bits in front of its end. -/
theorem Laid.steps_inside {cursor pointer : Nat} {fields : List Field} {packed : List PackedField}
    (laid : Laid cursor pointer fields packed) {step : Nat × Op}
    (member : step ∈ stepsFrom pointer (packed.flatMap PackedField.ops)) :
    ∃ shift place, step.2.Moves shift place step.1 ∧
      place + step.2.width ≤ endFrom cursor fields := by
  induction laid with
  | nil => cases member
  | @cons cursor pointer field ops fields packed moves width _ ih =>
      rw [List.flatMap_cons, stepsFrom_append] at member
      rcases List.mem_append.mp member with here | later
      · obtain ⟨shift, place, moved, bound⟩ := stepsFrom_moves moves here
        have reach := le_endFrom (field.start cursor + field.bits) fields
        exact ⟨shift, place, moved, by rw [endFrom]; omega⟩
      · exact ih later

/-- A step changes no byte behind the bits it moves. -/
theorem Op.getElem?_put {op : Op} {shift place pointer : Nat}
    (moves : op.Moves shift place pointer) {q : Nat} (behind : place + op.width ≤ 8 * q)
    (value : Nat) (buffer : Bytes) : (op.put value pointer buffer)[q]? = buffer[q]? := by
  cases op with
  | bool i | bit s i =>
      obtain ⟨-, inside, rfl⟩ := moves
      simp only [Op.width] at behind
      exact List.getElem?_modify_ne _ _ (by omega)
  | byte s =>
      obtain ⟨-, rfl⟩ := moves
      simp only [Op.width] at behind
      exact List.getElem?_set_ne (by omega)
  | bytes count =>
      obtain ⟨-, rfl⟩ := moves
      simp only [Op.width] at behind
      exact getElem?_overwrite _ (by rw [Bytes.length_littleEndian]; omega)
  | advance | align => rfl

/-- The steps realize the plain layout: every bit of a field stands at its place, gaps are zero, and
no step touches a byte behind the telegram, however long the buffer is. -/
theorem collect_layout (made : pack fields = .ok p) (narrow : ∀ f ∈ fields, f.bits ≤ 128)
    (mode : Overflow) (values : List Nat) :
    ∃ telegram, p.collect mode values = some telegram ∧ telegram.length = p.byteLength ∧
    (∀ i start field, (layout fields)[i]? = some (start, field) →
      ∀ n, start ≤ n → n < start + field.bits →
        n < 8 * p.byteLength ∧
          Bytes.bit telegram n = (values.getD i 0).testBit (n - start)) ∧
    (∀ n i j, Covers fields i n → Covers fields j n → i = j) ∧
    (∀ n, n < 8 * p.byteLength → (∀ i, ¬Covers fields i n) → Bytes.bit telegram n = false) ∧
    (∀ step ∈ p.steps, ∀ value buffer, ∃ after,
      step.2.collect mode value step.1 buffer = some after ∧
      ∀ q, p.byteLength ≤ q → after[q]? = buffer[q]?) := by
  refine ⟨_, collect_eq made narrow mode values, telegram_length p values, ?_, ?_, ?_, ?_⟩
  · intro i start field slot n lower upper
    exact ⟨slot_inside made slot upper, telegram_field made narrow values slot lower upper⟩
  · intro n i j left right
    exact left.unique right
  · intro n _ free
    exact telegram_gap made narrow values free
  · intro step member value buffer
    have inside : step.2.Inside := by
      obtain ⟨q, packed, op⟩ := List.mem_flatMap.mp (mem_of_stepsFrom member)
      exact (pack_laid made).inside narrow q packed step.2 op
    refine ⟨_, Op.collect_of_inside inside mode value step.1 buffer, ?_⟩
    intro q behind
    obtain ⟨shift, place, moves, bound⟩ := (pack_laid made).steps_inside member
    have room := pack_room made
    exact Op.getElem?_put moves (by omega) value buffer

theorem collect_layout_sample :
    pack sampleFields = .ok samplePacking ∧ (∀ f ∈ sampleFields, f.bits ≤ 128) ∧
    ∃ telegram, samplePacking.collect .trap [1, 0x3fffe, 0x4241] = some telegram ∧
      telegram.length = 5 ∧ Bytes.bit telegram 9 = Nat.testBit 0x3fffe 8 ∧
      Bytes.bit telegram 20 = false ∧
      ∃ after, (Op.bytes 2).collect .trap 0x4241 3 (List.replicate 7 9) = some after ∧
        after[5]? = some 9 := by
  obtain ⟨telegram, collected, length, fields, -, gaps, steps⟩ :=
    collect_layout pack_sample sample_narrow .trap [1, 0x3fffe, 0x4241]
  refine ⟨pack_sample, sample_narrow, telegram, collected, length, ?_,
    gaps 20 (by decide) sample_gap, ?_⟩
  · exact (fields 1 1 ⟨"level", 18, false⟩ (by decide) 9 (by decide) (by decide)).2
  · obtain ⟨after, moved, kept⟩ := steps (3, .bytes 2) (by decide) 0x4241 (List.replicate 7 9)
    exact ⟨after, moved, kept 5 (by decide)⟩

end

end EcatDevice.ProcessData
