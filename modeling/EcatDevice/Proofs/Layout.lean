import EcatDevice.ProcessData.Packing
import Mathlib.Tactic

/-! # Layout of telegrams

A row of fields is laid out in one pass from left to right with a bit cursor. A synthesized transfer
sequence moves the bits of each field, in order and without gaps, to the place that the layout gives
the field. `Moves` says so of one step and `MovesAll` of a run of steps; `Laid` says it of a whole
telegram and is all that the later proofs know about synthesis.
-/

namespace EcatDevice

theorem totalOf_append {α : Type} (measure : α → Nat) (left right : List α) :
    totalOf measure (left ++ right) = totalOf measure left + totalOf measure right := by
  induction left with
  | nil => simp only [List.nil_append, totalOf, Nat.zero_add]
  | cons a rest ih => simp only [List.cons_append, totalOf, ih, Nat.add_assoc]

namespace ProcessData

/-! ## Layout -/

/-- First bit of a field behind the bit `cursor`: a byte-aligned field of more than one bit starts
on the next byte boundary. -/
def Field.start (cursor : Nat) (field : Field) : Nat :=
  if field.byteAligned ∧ field.bits ≠ 1 then (cursor + 7) / 8 * 8 else cursor

def layoutFrom : Nat → List Field → List (Nat × Field)
  | _, [] => []
  | cursor, field :: rest =>
    (field.start cursor, field) :: layoutFrom (field.start cursor + field.bits) rest

/-- The fields of a telegram, each with its first bit. -/
def layout (fields : List Field) : List (Nat × Field) :=
  layoutFrom 0 fields

/-- The cursor behind fields that start behind the bit `cursor`. -/
def endFrom : Nat → List Field → Nat
  | cursor, [] => cursor
  | cursor, field :: rest => endFrom (field.start cursor + field.bits) rest

/-- Bit `n` of the telegram is one of field `i`. -/
def Covers (fields : List Field) (i n : Nat) : Prop :=
  ∃ start field, (layout fields)[i]? = some (start, field) ∧ start ≤ n ∧ n < start + field.bits

theorem Field.le_start (cursor : Nat) (field : Field) : cursor ≤ field.start cursor := by
  unfold Field.start
  split <;> omega

theorem Field.start_of_loose {field : Field} (loose : field.byteAligned = false) (cursor : Nat) :
    field.start cursor = cursor := by
  simp only [Field.start, loose, Bool.false_eq_true, false_and, if_false]

theorem le_endFrom (cursor : Nat) (fields : List Field) : cursor ≤ endFrom cursor fields := by
  induction fields generalizing cursor with
  | nil => exact le_refl cursor
  | cons field rest ih =>
      calc
        cursor ≤ field.start cursor := field.le_start cursor
        _ ≤ field.start cursor + field.bits := Nat.le_add_right _ _
        _ ≤ endFrom cursor (field :: rest) := ih _

theorem layoutFrom_field (cursor : Nat) (fields : List Field) :
    (layoutFrom cursor fields).map Prod.snd = fields := by
  induction fields generalizing cursor with
  | nil => rfl
  | cons field rest ih => simp only [layoutFrom, List.map_cons, ih]

theorem layout_getElem? {fields : List Field} {i : Nat} {field : Field}
    (found : fields[i]? = some field) : ∃ start, (layout fields)[i]? = some (start, field) := by
  rw [← layoutFrom_field 0 fields, List.getElem?_map] at found
  obtain ⟨⟨start, same⟩, here, rfl⟩ := Option.map_eq_some_iff.mp found
  exact ⟨start, here⟩

theorem layoutFrom_bounds {cursor : Nat} {fields : List Field} {start : Nat} {field : Field}
    (member : (start, field) ∈ layoutFrom cursor fields) :
    cursor ≤ start ∧ start + field.bits ≤ endFrom cursor fields := by
  induction fields generalizing cursor with
  | nil => cases member
  | cons head rest ih =>
      have forward := head.le_start cursor
      rcases List.mem_cons.mp member with same | later
      · obtain ⟨rfl, rfl⟩ := Prod.mk.inj same
        exact ⟨forward, le_endFrom _ rest⟩
      · have bounds := ih later
        exact ⟨by omega, bounds.2⟩

/-- A field ends before the next one starts. -/
theorem layoutFrom_separate {cursor : Nat} {fields : List Field} {i j : Nat} {start later : Nat}
    {field other : Field} (first : (layoutFrom cursor fields)[i]? = some (start, field))
    (second : (layoutFrom cursor fields)[j]? = some (later, other)) (before : i < j) :
    start + field.bits ≤ later := by
  induction fields generalizing cursor i j with
  | nil => simp [layoutFrom] at first
  | cons head rest ih =>
      obtain ⟨j, rfl⟩ : ∃ k, j = k + 1 := ⟨j - 1, by omega⟩
      rw [layoutFrom, List.getElem?_cons_succ] at second
      cases i with
      | zero =>
          rw [layoutFrom, List.getElem?_cons_zero] at first
          obtain ⟨rfl, rfl⟩ := Prod.mk.inj (Option.some.inj first)
          exact (layoutFrom_bounds (List.mem_of_getElem? second)).1
      | succ i =>
          rw [layoutFrom, List.getElem?_cons_succ] at first
          exact ih first second (by omega)

theorem Covers.unique {fields : List Field} {i j n : Nat} (left : Covers fields i n)
    (right : Covers fields j n) : i = j := by
  obtain ⟨start, field, here, lower, upper⟩ := left
  obtain ⟨later, other, there, lower', upper'⟩ := right
  rcases Nat.lt_trichotomy i j with before | same | behind
  · have := layoutFrom_separate here there before
    omega
  · exact same
  · have := layoutFrom_separate there here behind
    omega

/-! ## Steps -/

def Op.width : Op → Nat
  | .bool _ => 1
  | .bit _ _ => 1
  | .byte _ => 8
  | .bytes count => 8 * count
  | .advance => 0
  | .align => 0

/-- A step at a pointer moves bits of a field from `shift` on between the field and the bits of the
buffer from `place` on. -/
def Op.Moves (shift place pointer : Nat) : Op → Prop
  | .bool i => shift = 0 ∧ i < 8 ∧ place = 8 * pointer + i
  | .bit s i => shift = s ∧ i < 8 ∧ place = 8 * pointer + i
  | .byte s => shift = s ∧ place = 8 * pointer
  | .bytes _ => shift = 0 ∧ place = 8 * pointer
  | .advance => True
  | .align => True

/-- Every step of a run goes on where the one before ended. -/
def MovesAll : Nat → Nat → Nat → List Op → Prop
  | _, _, _, [] => True
  | shift, place, pointer, op :: rest =>
    op.Moves shift place pointer ∧
      MovesAll (shift + op.width) (place + op.width) (pointer + op.stride) rest

theorem movesAll_append (shift place pointer : Nat) (left right : List Op) :
    MovesAll shift place pointer (left ++ right) ↔
      MovesAll shift place pointer left ∧
        MovesAll (shift + totalOf Op.width left) (place + totalOf Op.width left)
          (pointer + totalOf Op.stride left) right := by
  induction left generalizing shift place pointer with
  | nil => simp only [List.nil_append, MovesAll, totalOf, Nat.add_zero, true_and]
  | cons op rest ih => simp only [List.cons_append, MovesAll, totalOf, ih, and_assoc, Nat.add_assoc]

/-- A run of steps moves `width` bits from `shift` and `place` on, and ends `next` bits behind the
start of the byte it points to. -/
structure Carries (shift place pointer width : Nat) (ops : List Op) (next : Nat) : Prop where
  moves : MovesAll shift place pointer ops
  count : totalOf Op.width ops = width
  reach : 8 * (pointer + totalOf Op.stride ops) + next = place + width

theorem Carries.append {shift place pointer width more next last : Nat} {ops others : List Op}
    (first : Carries shift place pointer width ops next)
    (second : Carries (shift + width) (place + width) (pointer + totalOf Op.stride ops) more
      others last) :
    Carries shift place pointer (width + more) (ops ++ others) last where
  moves := by
    rw [movesAll_append, first.count]
    exact ⟨first.moves, second.moves⟩
  count := by rw [totalOf_append, first.count, second.count]
  reach := by
    have reach := second.reach
    rw [totalOf_append]
    omega

theorem Carries.one {shift place pointer next : Nat} (op : Op)
    (moves : op.Moves shift place pointer)
    (reach : 8 * (pointer + op.stride) + next = place + op.width) :
    Carries shift place pointer op.width [op] next where
  moves := ⟨moves, trivial⟩
  count := rfl
  reach := reach

/-! ## Synthesis -/

theorem nextBit_lt (cursor : Nat) : (nextBit cursor).2 < 8 := by
  unfold nextBit
  split
  · assumption
  · decide

theorem nextBit_carries {cursor : Nat} (inside : cursor < 8) (shift pointer : Nat) :
    Carries shift (8 * pointer + cursor + 1) pointer 0 (nextBit cursor).1 (nextBit cursor).2 := by
  unfold nextBit
  split
  · exact ⟨trivial, rfl, by simp only [totalOf]; omega⟩
  · exact ⟨⟨trivial, trivial⟩, rfl, by simp only [totalOf, Op.stride]; omega⟩

theorem integerOps_zero (shift cursor : Nat) : integerOps 0 shift cursor = ([], cursor) := by
  rw [integerOps, if_pos rfl]

theorem integerOps_byte {remaining : Nat} (whole : 8 ≤ remaining) (shift : Nat) :
    integerOps remaining shift 0 =
      (.byte shift :: (integerOps (remaining - 8) (shift + 8) 0).1,
        (integerOps (remaining - 8) (shift + 8) 0).2) := by
  rw [integerOps, if_neg (by omega), if_pos ⟨whole, rfl⟩]

theorem integerOps_bit {remaining cursor : Nat} (some : remaining ≠ 0)
    (part : ¬(8 ≤ remaining ∧ cursor = 0)) (shift : Nat) :
    integerOps remaining shift cursor =
      (.bit shift cursor :: (nextBit cursor).1 ++
          (integerOps (remaining - 1) (shift + 1) (nextBit cursor).2).1,
        (integerOps (remaining - 1) (shift + 1) (nextBit cursor).2).2) := by
  rw [integerOps, if_neg some, if_neg part]

theorem integerOps_lt (remaining shift : Nat) {cursor : Nat} (inside : cursor < 8) :
    (integerOps remaining shift cursor).2 < 8 := by
  induction remaining using Nat.strong_induction_on generalizing shift cursor with
  | _ remaining ih =>
      by_cases none : remaining = 0
      · subst none
        rw [integerOps_zero]
        exact inside
      · by_cases whole : 8 ≤ remaining ∧ cursor = 0
        · obtain ⟨whole, rfl⟩ := whole
          rw [integerOps_byte whole]
          exact ih (remaining - 8) (by omega) _ inside
        · rw [integerOps_bit none whole]
          exact ih (remaining - 1) (by omega) _ (nextBit_lt cursor)

/-- The steps for an integer move its bits one behind the other, whichever way each bit goes. -/
theorem integerOps_carries (remaining shift pointer : Nat) {cursor : Nat} (inside : cursor < 8) :
    Carries shift (8 * pointer + cursor) pointer remaining (integerOps remaining shift cursor).1
      (integerOps remaining shift cursor).2 := by
  induction remaining using Nat.strong_induction_on generalizing shift pointer cursor with
  | _ remaining ih =>
      by_cases none : remaining = 0
      · subst none
        rw [integerOps_zero]
        exact ⟨trivial, rfl, by simp only [totalOf]; omega⟩
      · by_cases whole : 8 ≤ remaining ∧ cursor = 0
        · obtain ⟨whole, rfl⟩ := whole
          rw [integerOps_byte whole]
          have head : Carries shift (8 * pointer + 0) pointer 8 [.byte shift] 0 :=
            Carries.one (.byte shift) ⟨rfl, rfl⟩ (by simp only [Op.stride, Op.width]; omega)
          have tail := ih (remaining - 8) (by omega) (shift + 8) (pointer + 1) inside
          have both := head.append tail
          rwa [Nat.add_sub_cancel' whole] at both
        · rw [integerOps_bit none whole]
          have head : Carries shift (8 * pointer + cursor) pointer 1 [.bit shift cursor]
              (cursor + 1) :=
            Carries.one (.bit shift cursor) ⟨rfl, inside, rfl⟩
              (by simp only [Op.stride, Op.width]; omega)
          have upTo := head.append (nextBit_carries inside (shift + 1) pointer)
          have reach := upTo.reach
          have tail := ih (remaining - 1) (by omega) (shift + 1)
            (pointer + totalOf Op.stride ([.bit shift cursor] ++ (nextBit cursor).1))
            (nextBit_lt cursor)
          rw [reach] at tail
          have both := upTo.append tail
          rwa [Nat.add_zero, Nat.add_sub_cancel' (Nat.one_le_iff_ne_zero.mpr none)] at both

/-- The three kinds of fields: a single bit, whole bytes, an integer. -/
theorem fieldOps_cases {cursor next : Nat} {field : Field} {ops : List Op}
    (made : fieldOps cursor field = .ok (ops, next)) :
    (field.bits = 1 ∧ ops = .bool cursor :: (nextBit cursor).1 ∧ next = (nextBit cursor).2) ∨
    (field.bits ≠ 1 ∧ field.byteAligned = true ∧ field.bits % 8 = 0 ∧
      ops = (if cursor = 0 then [] else [.advance]) ++ [.bytes (field.bits / 8)] ∧ next = 0) ∨
    (field.bits ≠ 1 ∧ field.byteAligned = false ∧
      ops = (integerOps field.bits 0 cursor).1 ∧ next = (integerOps field.bits 0 cursor).2) := by
  unfold fieldOps at made
  split at made
  · next single =>
      obtain ⟨rfl, rfl⟩ := Prod.mk.inj (Except.ok.inj made)
      exact .inl ⟨single, rfl, rfl⟩
  · next several =>
      split at made
      · next aligned =>
          split at made
          · next whole =>
              obtain ⟨rfl, rfl⟩ := Prod.mk.inj (Except.ok.inj made)
              exact .inr (.inl ⟨several, aligned, whole, rfl, rfl⟩)
          · cases made
      · next loose =>
          have same := Except.ok.inj made
          exact .inr (.inr ⟨several, by simpa using loose, by rw [same], by rw [same]⟩)

theorem fieldOps_lt {cursor next : Nat} {field : Field} {ops : List Op} (inside : cursor < 8)
    (made : fieldOps cursor field = .ok (ops, next)) : next < 8 := by
  rcases fieldOps_cases made with ⟨-, -, rfl⟩ | ⟨-, -, -, -, rfl⟩ | ⟨-, -, -, rfl⟩
  · exact nextBit_lt cursor
  · decide
  · exact integerOps_lt field.bits 0 inside

theorem bytesOps_carries (count pointer : Nat) {cursor : Nat} (inside : cursor < 8) :
    Carries 0 ((8 * pointer + cursor + 7) / 8 * 8) pointer (8 * count)
      ((if cursor = 0 then [] else [.advance]) ++ [.bytes count]) 0 := by
  have copy : ∀ pointer, Carries 0 (8 * pointer) pointer (8 * count) [.bytes count] 0 := by
    intro pointer
    exact Carries.one (.bytes count) ⟨rfl, rfl⟩ (by simp only [Op.stride, Op.width]; omega)
  by_cases boundary : cursor = 0
  · have place : (8 * pointer + cursor + 7) / 8 * 8 = 8 * pointer := by omega
    rw [place, if_pos boundary]
    exact copy pointer
  · have place : (8 * pointer + cursor + 7) / 8 * 8 = 8 * (pointer + 1) := by omega
    have skip : Carries 0 (8 * (pointer + 1)) pointer 0 [.advance] 0 :=
      Carries.one .advance trivial rfl
    have both := skip.append (copy (pointer + 1))
    rw [place, if_neg boundary]
    rwa [Nat.zero_add] at both

/-- The steps for a field move all its bits to the place that the layout gives it. -/
theorem fieldOps_carries {cursor next : Nat} {field : Field} {ops : List Op} (inside : cursor < 8)
    (made : fieldOps cursor field = .ok (ops, next)) (pointer : Nat) :
    Carries 0 (field.start (8 * pointer + cursor)) pointer field.bits ops next := by
  rcases fieldOps_cases made with ⟨single, rfl, rfl⟩ | ⟨several, aligned, whole, rfl, rfl⟩ |
    ⟨several, loose, rfl, rfl⟩
  · have start : field.start (8 * pointer + cursor) = 8 * pointer + cursor := by
      simp only [Field.start, single, ne_eq, not_true_eq_false, and_false, if_false]
    have head : Carries 0 (8 * pointer + cursor) pointer 1 [.bool cursor] (cursor + 1) :=
      Carries.one (.bool cursor) ⟨rfl, inside, rfl⟩ (by simp only [Op.stride, Op.width]; omega)
    rw [start, single]
    exact head.append (nextBit_carries inside 1 pointer)
  · have start : field.start (8 * pointer + cursor) = (8 * pointer + cursor + 7) / 8 * 8 := by
      simp only [Field.start, aligned, several, ne_eq, not_false_eq_true, and_self, if_true]
    have eighths : 8 * (field.bits / 8) = field.bits := by omega
    have all := bytesOps_carries (field.bits / 8) pointer inside
    rwa [eighths, ← start] at all
  · rw [Field.start_of_loose loose]
    exact integerOps_carries field.bits 0 pointer inside

/-! ## Telegrams -/

/-- Behind the bit `cursor`, at a pointer, packed fields lie as the layout of their fields says. -/
inductive Laid : Nat → Nat → List Field → List PackedField → Prop where
  | nil {cursor pointer : Nat} : Laid cursor pointer [] []
  | cons {cursor pointer : Nat} {field : Field} {ops : List Op} {fields : List Field}
      {packed : List PackedField} :
      MovesAll 0 (field.start cursor) pointer ops →
      totalOf Op.width ops = field.bits →
      Laid (field.start cursor + field.bits) (pointer + totalOf Op.stride ops) fields packed →
      Laid cursor pointer (field :: fields) ({ field, ops } :: packed)

theorem packFrom_cons {cursor : Nat} {field : Field} {rest : List Field}
    {packed : List PackedField} (made : packFrom cursor (field :: rest) = .ok packed) :
    ∃ ops next tail, fieldOps cursor field = .ok (ops, next) ∧ packFrom next rest = .ok tail ∧
      packed =
        { field, ops := if rest.isEmpty ∧ next ≠ 0 then ops ++ [.align] else ops } :: tail := by
  rw [packFrom] at made
  cases first : fieldOps cursor field with
  | error e => simp [first, bind, Except.bind] at made
  | ok out =>
      obtain ⟨ops, next⟩ := out
      cases others : packFrom next rest with
      | error e => simp [first, others, bind, Except.bind] at made
      | ok tail =>
          simp only [first, others, bind, Except.bind, pure, Except.pure, Except.ok.injEq] at made
          exact ⟨ops, next, tail, rfl, others, made.symm⟩

theorem packFrom_laid {cursor : Nat} {fields : List Field} {packed : List PackedField}
    (inside : cursor < 8) (made : packFrom cursor fields = .ok packed) (pointer : Nat) :
    Laid (8 * pointer + cursor) pointer fields packed := by
  induction fields generalizing cursor packed pointer with
  | nil =>
      cases made
      exact .nil
  | cons field rest ih =>
      obtain ⟨ops, next, tail, first, others, rfl⟩ := packFrom_cons made
      have carries := fieldOps_carries inside first pointer
      have small := fieldOps_lt inside first
      by_cases last : rest.isEmpty ∧ next ≠ 0
      · -- the closing step moves nothing, and no field is left that would start behind it
        have empty : rest = [] := List.isEmpty_iff.mp last.1
        subst empty
        cases others
        rw [if_pos last]
        refine .cons ?_ ?_ .nil
        · exact (movesAll_append _ _ _ _ _).mpr ⟨carries.moves, trivial, trivial⟩
        · rw [totalOf_append, carries.count]
          rfl
      · rw [if_neg last]
        refine .cons carries.moves carries.count ?_
        rw [← carries.reach]
        exact ih small others _

/-- Behind the last field the pointer stands on the first byte boundary that no field reaches
over. -/
theorem packFrom_stride {cursor : Nat} {fields : List Field} {packed : List PackedField}
    (inside : cursor < 8) (made : packFrom cursor fields = .ok packed) (pointer : Nat)
    (closed : fields = [] → cursor = 0) :
    pointer + totalOf PackedField.stride packed =
      (endFrom (8 * pointer + cursor) fields + 7) / 8 := by
  induction fields generalizing cursor packed pointer with
  | nil =>
      cases made
      have boundary := closed rfl
      simp only [totalOf, endFrom]
      omega
  | cons field rest ih =>
      obtain ⟨ops, next, tail, first, others, rfl⟩ := packFrom_cons made
      have reach := (fieldOps_carries inside first pointer).reach
      have small := fieldOps_lt inside first
      rw [endFrom, ← reach, totalOf, PackedField.stride]
      by_cases last : rest.isEmpty ∧ next ≠ 0
      · have empty : rest = [] := List.isEmpty_iff.mp last.1
        subst empty
        cases others
        simp only [if_pos last, totalOf_append, totalOf, Op.stride, endFrom]
        omega
      · rw [if_neg last, ← Nat.add_assoc]
        refine ih small others _ ?_
        intro empty
        subst empty
        simpa using last

theorem pack_fields {fields : List Field} {p : Packing} (made : pack fields = .ok p) :
    packFrom 0 fields = .ok p.fields := by
  unfold pack at made
  cases packed : packFrom 0 fields with
  | error e => simp [packed, bind, Except.bind] at made
  | ok all =>
      simp only [packed, bind, Except.bind, pure, Except.pure, Except.ok.injEq] at made
      rw [← made]

theorem pack_laid {fields : List Field} {p : Packing} (made : pack fields = .ok p) :
    Laid 0 0 fields p.fields :=
  packFrom_laid (by decide) (pack_fields made) 0

/-- The telegram ends with the byte that holds its last bit. -/
theorem pack_byteLength {fields : List Field} {p : Packing} (made : pack fields = .ok p) :
    p.byteLength = (endFrom 0 fields + 7) / 8 := by
  have stride := packFrom_stride (by decide) (pack_fields made) 0 (fun _ => rfl)
  rwa [Nat.zero_add] at stride

theorem pack_room {fields : List Field} {p : Packing} (made : pack fields = .ok p) :
    endFrom 0 fields ≤ 8 * p.byteLength := by
  rw [pack_byteLength made]
  omega

/-! ## A telegram with all kinds of fields

A switch, an integer across byte boundaries, and a text that leaves a gap before it.
-/

def sampleFields : List Field :=
  [⟨"on", 1, false⟩, ⟨"level", 18, false⟩, ⟨"name", 16, true⟩]

def samplePacking : Packing :=
  ⟨[⟨⟨"on", 1, false⟩, [.bool 0]⟩,
    ⟨⟨"level", 18, false⟩, [.bit 0 1, .bit 1 2, .bit 2 3, .bit 3 4, .bit 4 5, .bit 5 6, .bit 6 7,
      .advance, .byte 7, .bit 15 0, .bit 16 1, .bit 17 2]⟩,
    ⟨⟨"name", 16, true⟩, [.advance, .bytes 2]⟩]⟩

theorem pack_sample : pack sampleFields = .ok samplePacking := by
  decide +kernel

theorem sample_narrow : ∀ f ∈ sampleFields, f.bits ≤ 128 := by
  decide

/-- Bit 20 lies between the integer and the text. -/
theorem sample_gap : ∀ i, ¬Covers sampleFields i 20 := by
  rintro (_ | _ | _ | i) ⟨start, field, found, lower, upper⟩
  · cases found
    exact absurd upper (by decide)
  · cases found
    exact absurd upper (by decide)
  · cases found
    exact absurd lower (by decide)
  · cases found

end ProcessData

end EcatDevice
