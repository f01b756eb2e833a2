import EcatDevice.Proofs.ProcessDataSize
import Mathlib

/-! # The whole transfer sequence of a telegram

The steps of all fields in a row, each with the name of its field, are one sequence. It closes with
a step to the next byte boundary just when the last field does not end on one, and no other step is
of that kind. The code of a telegram is the code of its fields put together: joined with one
separator, the texts of the fields and the lines of the sequence are the same text.
-/

namespace EcatDevice

/-- Texts that were joined from lines are joined as the lines themselves would be, if none of them
is without lines. -/
theorem intercalate_flatten (separator : String) {parts : List (List String)}
    (filled : ∀ part ∈ parts, part ≠ []) :
    String.intercalate separator (parts.map (String.intercalate separator)) =
      String.intercalate separator parts.flatten := by
  induction parts with
  | nil => rfl
  | cons part rest ih =>
      obtain ⟨some, others⟩ := List.forall_mem_cons.mp filled
      cases rest with
      | nil => simp
      | cons next rest =>
          have more : (next :: rest).flatten ≠ [] := by simp [others next List.mem_cons_self]
          rw [List.flatten_cons, String.intercalate_append_of_ne_nil some more, ← ih others]
          simp only [List.map_cons, String.intercalate_cons_cons]

namespace ProcessData

/-! ## Steps -/

/-- All steps of a telegram in order, each with the name of the field it works on. -/
def Packing.sequence (p : Packing) : List (String × Op) :=
  p.fields.flatMap fun packed => packed.ops.map (packed.field.symbol, ·)

theorem nextBit_open (cursor : Nat) : .align ∉ (nextBit cursor).1 := by
  unfold nextBit
  split <;> simp

theorem integerOps_open (remaining shift cursor : Nat) :
    .align ∉ (integerOps remaining shift cursor).1 := by
  fun_induction integerOps remaining shift cursor with
  | case1 => simp
  | case2 remaining shift cursor _ _ ops last rest ih => simpa [rest] using ih
  | case3 remaining shift cursor _ _ step next first ops last rest ih =>
      have bit := nextBit_open cursor
      simp_all

/-- The steps of a field do not close the telegram. -/
theorem fieldOps_open {cursor next : Nat} {field : Field} {ops : List Op}
    (made : fieldOps cursor field = .ok (ops, next)) : .align ∉ ops := by
  rcases fieldOps_cases made with ⟨-, rfl, -⟩ | ⟨-, -, -, rfl, -⟩ | ⟨-, -, rfl, -⟩
  · simp [nextBit_open]
  · split <;> simp
  · exact integerOps_open field.bits 0 cursor

/-- The step behind the last field, which ends at the bit `last`. -/
def closing (fields : List Field) (last : Nat) : List (String × Op) :=
  if last % 8 = 0 then [] else fields.getLast?.toList.map fun field => (field.symbol, .align)

/-- The steps of packed fields close the telegram once at most, and only behind all others. -/
theorem packFrom_closing {cursor : Nat} {fields : List Field} {packed : List PackedField}
    (inside : cursor < 8) (made : packFrom cursor fields = .ok packed) (pointer : Nat) :
    ∃ moves, ({ fields := packed } : Packing).sequence =
        moves ++ closing fields (endFrom (8 * pointer + cursor) fields) ∧
      ∀ step ∈ moves, step.2 ≠ .align := by
  induction fields generalizing cursor packed pointer with
  | nil =>
      cases made
      exact ⟨[], by simp [Packing.sequence, closing], by simp⟩
  | cons field rest ih =>
      obtain ⟨ops, next, tail, first, others, rfl⟩ := packFrom_cons made
      have reach := (fieldOps_carries inside first pointer).reach
      have small := fieldOps_lt inside first
      have kept : ∀ step ∈ ops.map (field.symbol, ·), step.2 ≠ .align := by
        rintro step member
        obtain ⟨op, inside, rfl⟩ := List.mem_map.mp member
        rintro rfl
        exact fieldOps_open first inside
      cases rest with
      | nil =>
          cases others
          refine ⟨ops.map (field.symbol, ·), ?_, kept⟩
          have last : endFrom (8 * pointer + cursor) [field] % 8 = next := by
            simp only [endFrom, ← reach]
            omega
          by_cases boundary : next = 0 <;> simp [Packing.sequence, closing, last, boundary]
      | cons second rest =>
          obtain ⟨moves, same, unclosed⟩ := ih small others (pointer + totalOf Op.stride ops)
          refine ⟨ops.map (field.symbol, ·) ++ moves, ?_, ?_⟩
          · rw [reach] at same
            simp only [Packing.sequence, List.flatMap_cons, List.isEmpty_cons, Bool.false_eq_true,
              false_and, if_false, List.append_assoc] at same ⊢
            rw [same]
            rfl
          · exact List.forall_mem_append.mpr ⟨kept, unclosed⟩

theorem pack_closing {fields : List Field} {p : Packing} (made : pack fields = .ok p) :
    ∃ moves, p.sequence = moves ++ closing fields (endFrom 0 fields) ∧
      ∀ step ∈ moves, step.2 ≠ .align :=
  packFrom_closing (by decide) (pack_fields made) 0

/-! ## Code -/

theorem Laid.bits {cursor pointer : Nat} {fields : List Field} {packed : List PackedField}
    (laid : Laid cursor pointer fields packed) :
    ∀ p ∈ packed, totalOf Op.width p.ops = p.field.bits := by
  induction laid with
  | nil => simp
  | cons _ width _ ih => exact List.forall_mem_cons.mpr ⟨width, ih⟩

/-- A field of some bits takes some steps. -/
theorem pack_ops_ne_nil {fields : List Field} {p : Packing} (made : pack fields = .ok p)
    (wide : ∀ field ∈ fields, 0 < field.bits) : ∀ packed ∈ p.fields, packed.ops ≠ [] := by
  have laid := pack_laid made
  intro packed member none
  have width := laid.bits packed member
  have listed : packed.field ∈ fields := by
    rw [← laid.fields]
    exact List.mem_map_of_mem member
  have positive := wide _ listed
  simp [← width, none, totalOf] at positive

/-- The lines that `code` makes of all steps of a telegram. -/
def Packing.lines (code : String → Op → List String) (p : Packing) : List String :=
  p.sequence.flatMap fun step => code step.1 step.2

/-- The texts of the fields, put together, are the text of all steps. -/
theorem Packing.intercalate_lines (separator : String) {code : String → Op → List String}
    (some : ∀ symbol op, code symbol op ≠ []) {p : Packing}
    (filled : ∀ packed ∈ p.fields, packed.ops ≠ []) :
    String.intercalate separator (p.fields.map fun packed =>
        String.intercalate separator (packed.ops.flatMap (code packed.field.symbol))) =
      String.intercalate separator (p.lines code) := by
  have lines : p.lines code =
      (p.fields.map fun packed => packed.ops.flatMap (code packed.field.symbol)).flatten := by
    rw [Packing.lines, sequence, List.flatMap_assoc, ← List.flatMap_def]
    simp only [List.flatMap_map]
  rw [lines, ← intercalate_flatten separator, List.map_map]
  · rfl
  · intro part member
    obtain ⟨packed, listed, rfl⟩ := List.mem_map.mp member
    obtain ⟨op, rest, split⟩ := List.exists_cons_of_ne_nil (filled packed listed)
    simp [split, some]

theorem Op.collectCode_ne_nil (symbol : String) (op : Op) : op.collectCode symbol ≠ [] := by
  fun_cases Op.collectCode symbol op <;> simp

theorem Op.scatterCode_ne_nil (symbol : String) (op : Op) : op.scatterCode symbol ≠ [] := by
  fun_cases Op.scatterCode symbol op <;> simp [Op.collectCode_ne_nil]

end ProcessData

end EcatDevice
