import EcatDevice.ProcessData.Packing
import Mathlib.Data.Nat.Bitwise
import Mathlib.Tactic

/-! # Bits of a row of bytes

A row of bytes is also a row of bits: bit `n` is bit `n % 8` of byte `n / 8`. Every access of a
transfer sequence to the buffer is described here by the bits it reads or writes.
-/

namespace EcatDevice

/-- Taking away the common bits of another number leaves the bits that are not common. -/
theorem testBit_sub_and (x y n : Nat) :
    (x - (x &&& y)).testBit n = (x.testBit n && !y.testBit n) := by
  induction n generalizing x y with
  | zero =>
      have odd : (x &&& y) % 2 = 1 ↔ x % 2 = 1 ∧ y % 2 = 1 := Nat.and_mod_two_eq_one
      have le : x &&& y ≤ x := Nat.and_le_left
      rw [Nat.testBit_zero, Nat.testBit_zero, Nat.testBit_zero]
      by_cases left : x % 2 = 1 <;> by_cases right : y % 2 = 1 <;>
        simp only [left, right, decide_true, decide_false, Bool.not_true, Bool.not_false,
          Bool.and_true, Bool.and_false, decide_eq_true_eq, decide_eq_false_iff_not] <;> omega
  | succ n ih =>
      have odd : (x &&& y) % 2 = 1 ↔ x % 2 = 1 ∧ y % 2 = 1 := Nat.and_mod_two_eq_one
      have half : (x &&& y) / 2 = x / 2 &&& y / 2 := Nat.and_div_two
      have le : x / 2 &&& y / 2 ≤ x / 2 := Nat.and_le_left
      have halves : (x - (x &&& y)) / 2 = x / 2 - (x / 2 &&& y / 2) := by omega
      rw [Nat.testBit_succ, Nat.testBit_succ, Nat.testBit_succ, halves, ih]

/-- A row of bits in which `width` bits from `start` on give way to new ones. -/
def patch (start width : Nat) (new old : Nat → Bool) (n : Nat) : Bool :=
  if start ≤ n ∧ n < start + width then new (n - start) else old n

theorem patch_inside {start width n : Nat} (new old : Nat → Bool) (lower : start ≤ n)
    (upper : n < start + width) : patch start width new old n = new (n - start) :=
  if_pos ⟨lower, upper⟩

theorem patch_outside {start width n : Nat} (new old : Nat → Bool)
    (outside : ¬(start ≤ n ∧ n < start + width)) : patch start width new old n = old n :=
  if_neg outside

theorem patch_congr {start width : Nat} {new other : Nat → Bool} (old : Nat → Bool)
    (same : ∀ k, k < width → new k = other k) :
    patch start width new old = patch start width other old := by
  funext n
  by_cases inside : start ≤ n ∧ n < start + width
  · rw [patch_inside _ _ inside.1 inside.2, patch_inside _ _ inside.1 inside.2, same _ (by omega)]
  · rw [patch_outside _ _ inside, patch_outside _ _ inside]

theorem patch_old {old other : Nat → Bool} {n : Nat} (start width : Nat) (new : Nat → Bool)
    (same : old n = other n) : patch start width new old n = patch start width new other n := by
  simp only [patch, same]

theorem patch_nothing (start : Nat) (new old : Nat → Bool) : patch start 0 new old = old := by
  funext n
  exact patch_outside new old (by omega)

theorem patch_append (start width more : Nat) (new old : Nat → Bool) :
    patch (start + width) more (fun k => new (width + k)) (patch start width new old) =
      patch start (width + more) new old := by
  funext n
  by_cases second : start + width ≤ n ∧ n < start + width + more
  · rw [patch_inside _ _ second.1 second.2, patch_inside _ _ (by omega) (by omega)]
    congr 1
    omega
  · rw [patch_outside _ _ second]
    by_cases first : start ≤ n ∧ n < start + width
    · rw [patch_inside _ _ first.1 first.2, patch_inside _ _ first.1 (by omega)]
    · rw [patch_outside _ _ first, patch_outside _ _ (by omega)]

namespace Bytes

/-- Bit `n % 8` of byte `n / 8`. No bit behind the row is set. -/
def bit (bytes : Bytes) (n : Nat) : Bool :=
  (bytes.getD (n / 8) 0).toNat.testBit (n % 8)

theorem bit_at (bytes : Bytes) (position : Nat) {i : Nat} (inside : i < 8) :
    bit bytes (8 * position + i) = (bytes.getD position 0).toNat.testBit i := by
  have quotient : (8 * position + i) / 8 = position := by omega
  have remainder : (8 * position + i) % 8 = i := by omega
  simp only [bit, quotient, remainder]

theorem bit_cons (b : UInt8) (rest : Bytes) (n : Nat) :
    bit (b :: rest) n = if n < 8 then b.toNat.testBit n else bit rest (n - 8) := by
  split
  · next first =>
      have quotient : n / 8 = 0 := by omega
      have remainder : n % 8 = n := by omega
      simp only [bit, quotient, remainder, List.getD_cons_zero]
  · next behind =>
      have quotient : n / 8 = (n - 8) / 8 + 1 := by omega
      have remainder : n % 8 = (n - 8) % 8 := by omega
      simp only [bit, quotient, remainder, List.getD_cons_succ]

theorem bit_behind {bytes : Bytes} {n : Nat} (behind : 8 * bytes.length ≤ n) :
    bit bytes n = false := by
  have missing : bytes.length ≤ n / 8 := by omega
  simp only [bit, List.getD_eq_default _ _ missing, UInt8.toNat_zero, Nat.zero_testBit]

theorem bit_append {bytes : Bytes} (rest : Bytes) {n : Nat} (inside : n < 8 * bytes.length) :
    bit (bytes ++ rest) n = bit bytes n := by
  have present : n / 8 < bytes.length := by omega
  simp only [bit, List.getD_append _ _ _ _ present]

theorem bit_replicate_zero (count n : Nat) : bit (List.replicate count 0) n = false := by
  by_cases inside : n / 8 < count
  · simp only [bit, List.getD_replicate _ inside, UInt8.toNat_zero, Nat.zero_testBit]
  · exact bit_behind (by rw [List.length_replicate]; omega)

theorem bit_slice (bytes : Bytes) (position count n : Nat) :
    bit ((bytes.drop position).take count) n =
      if n < 8 * count then bit bytes (8 * position + n) else false := by
  have quotient : (8 * position + n) / 8 = position + n / 8 := by omega
  have remainder : (8 * position + n) % 8 = n % 8 := by omega
  split
  · next inside =>
      have taken : n / 8 < count := by omega
      simp only [bit, quotient, remainder, List.getD_eq_getElem?_getD, List.getElem?_take, taken,
        if_true, List.getElem?_drop]
  · next behind =>
      apply bit_behind
      have short : ((bytes.drop position).take count).length ≤ count := List.length_take_le _ _
      omega

/-- The number in `width` bits of a row from `start` on. -/
def read (bytes : Bytes) (start width : Nat) : Nat :=
  Nat.ofBits fun k : Fin width => bit bytes (start + k)

theorem testBit_read (bytes : Bytes) (start width n : Nat) :
    (read bytes start width).testBit n = if n < width then bit bytes (start + n) else false := by
  rw [read, Nat.testBit_ofBits]
  rfl

theorem testBit_byte {b : UInt8} {n : Nat} (behind : 8 ≤ n) : b.toNat.testBit n = false := by
  apply Nat.testBit_lt_two_pow
  calc
    b.toNat < 2 ^ 8 := b.toNat_lt
    _ ≤ 2 ^ n := Nat.pow_le_pow_right (by decide) behind

/-- The number of a row of bytes has the bits of the row. -/
theorem testBit_toNat (bytes : Bytes) (n : Nat) : (toNat bytes).testBit n = bit bytes n := by
  induction bytes generalizing n with
  | nil => simp [toNat, bit]
  | cons b rest ih =>
      have small : b.toNat < 2 ^ 8 := b.toNat_lt
      have split : toNat (b :: rest) = 2 ^ 8 * toNat rest + b.toNat := by
        rw [toNat]
        omega
      rw [split, Nat.testBit_two_pow_mul_add _ small, bit_cons, ih]

theorem valueCount_eq (width : Nat) : valueCount width = 2 ^ (8 * width) := by
  rw [Nat.pow_mul]
  rfl

theorem length_littleEndian (width n : Nat) : (littleEndian width n).length = width := by
  induction width generalizing n with
  | zero => rfl
  | succ width ih => simp only [littleEndian, List.length_cons, ih]

/-- The low bytes of a number have the low bits of the number. -/
theorem bit_littleEndian {width n : Nat} (value : Nat) (inside : n < 8 * width) :
    bit (littleEndian width value) n = value.testBit n := by
  induction width generalizing n value with
  | zero => omega
  | succ width ih =>
      rw [littleEndian, bit_cons]
      split
      · next first =>
          rw [UInt8.toNat_ofNat', Nat.testBit_mod_two_pow]
          simp only [first, decide_true, Bool.true_and]
      · next behind =>
          have shifted : value / 256 = value >>> 8 := by rw [Nat.shiftRight_eq_div_pow]
          rw [ih _ (by omega), shifted, Nat.testBit_shiftRight]
          congr 1
          omega

theorem bit_of_one_byte {old new : Bytes} {position : Nat} {b : UInt8}
    (here : new.getD position 0 = b)
    (elsewhere : ∀ q, position ≠ q → new.getD q 0 = old.getD q 0) :
    bit new = patch (8 * position) 8 b.toNat.testBit (bit old) := by
  funext n
  by_cases inside : 8 * position ≤ n ∧ n < 8 * position + 8
  · have quotient : n / 8 = position := by omega
    have remainder : n % 8 = n - 8 * position := by omega
    rw [patch_inside _ _ inside.1 inside.2]
    simp only [bit, quotient, remainder, here]
  · have other : position ≠ n / 8 := by omega
    rw [patch_outside _ _ inside]
    simp only [bit, elsewhere _ other]

theorem bit_set {bytes : Bytes} {position : Nat} (inside : position < bytes.length) (b : UInt8) :
    bit (bytes.set position b) = patch (8 * position) 8 b.toNat.testBit (bit bytes) := by
  apply bit_of_one_byte
  · simp [inside]
  · intro q other
    simp [List.getElem?_set_ne other]

theorem bit_modify {bytes : Bytes} {position : Nat} (inside : position < bytes.length)
    (f : UInt8 → UInt8) :
    bit (bytes.modify position f) =
      patch (8 * position) 8 (f (bytes.getD position 0)).toNat.testBit (bit bytes) := by
  apply bit_of_one_byte
  · simp [inside]
  · intro q other
    simp [List.getElem?_modify_ne f bytes other]

end Bytes

namespace ProcessData

theorem testBit_mask {i n : Nat} (place : i < 8) (inside : n < 8) :
    ((1 : UInt8) <<< UInt8.ofNat i).toNat.testBit n = decide (n = i) := by
  have table : ∀ i n : Fin 8,
      ((1 : UInt8) <<< UInt8.ofNat i.val).toNat.testBit n.val = decide (n.val = i.val) := by
    decide
  exact table ⟨i, place⟩ ⟨n, inside⟩

theorem testBit_setBit (b : UInt8) (on : Bool) {i n : Nat} (place : i < 8) (inside : n < 8) :
    (setBit b i on).toNat.testBit n = if n = i then on else b.toNat.testBit n := by
  have mask := testBit_mask place inside
  cases on with
  | true =>
      simp only [setBit, if_true, UInt8.toNat_or, Nat.testBit_or, mask]
      by_cases same : n = i <;> simp [same]
  | false =>
      have flipped : (~~~((1 : UInt8) <<< UInt8.ofNat i)).toNat.testBit n = !decide (n = i) := by
        rw [← mask, ← UInt8.toNat_toBitVec, UInt8.toBitVec_not, BitVec.testBit_toNat,
          BitVec.getLsbD_not, ← BitVec.testBit_toNat, UInt8.toNat_toBitVec]
        simp only [inside, decide_true, Bool.true_and]
      simp only [setBit, Bool.false_eq_true, if_false, UInt8.toNat_and, Nat.testBit_and, flipped]
      by_cases same : n = i <;> simp [same]

/-- Setting a bit of a byte of the buffer changes that bit alone. -/
theorem bit_modify_setBit {buffer : Bytes} {position i : Nat} (inside : position < buffer.length)
    (place : i < 8) (on : Bool) :
    Bytes.bit (buffer.modify position (setBit · i on)) =
      patch (8 * position + i) 1 (fun _ => on) (Bytes.bit buffer) := by
  rw [Bytes.bit_modify inside]
  funext n
  by_cases here : 8 * position ≤ n ∧ n < 8 * position + 8
  · have split : n = 8 * position + (n - 8 * position) := by omega
    have small : n - 8 * position < 8 := by omega
    rw [patch_inside _ _ here.1 here.2, testBit_setBit _ _ place small, ← Bytes.bit_at _ _ small,
      ← split]
    by_cases same : n - 8 * position = i
    · rw [if_pos same, patch_inside _ _ (by omega) (by omega)]
    · rw [if_neg same, patch_outside _ _ (by omega)]
  · rw [patch_outside _ _ here, patch_outside _ _ (by omega)]

@[simp] theorem length_overwrite (buffer : Bytes) (position : Nat) (bytes : Bytes) :
    (overwrite buffer position bytes).length = buffer.length := by
  induction bytes generalizing buffer position with
  | nil => rfl
  | cons b rest ih => rw [overwrite, ih, List.length_set]

theorem getElem?_overwrite (buffer : Bytes) {position q : Nat} {bytes : Bytes}
    (behind : position + bytes.length ≤ q) :
    (overwrite buffer position bytes)[q]? = buffer[q]? := by
  induction bytes generalizing buffer position with
  | nil => rfl
  | cons b rest ih =>
      rw [List.length_cons] at behind
      rw [overwrite, ih _ (by omega), List.getElem?_set_ne (by omega)]

/-- Overwriting bytes of the buffer writes their bits, and no other. -/
theorem bit_overwrite {buffer : Bytes} {position : Nat} {bytes : Bytes}
    (inside : position + bytes.length ≤ buffer.length) :
    Bytes.bit (overwrite buffer position bytes) =
      patch (8 * position) (8 * bytes.length) (Bytes.bit bytes) (Bytes.bit buffer) := by
  induction bytes generalizing buffer position with
  | nil => exact (patch_nothing _ _ _).symm
  | cons b rest ih =>
      rw [List.length_cons] at inside
      have first : patch (8 * position) 8 b.toNat.testBit (Bytes.bit buffer) =
          patch (8 * position) 8 (Bytes.bit (b :: rest)) (Bytes.bit buffer) := by
        apply patch_congr
        intro k small
        rw [Bytes.bit_cons, if_pos small]
      have later : Bytes.bit rest = fun k => Bytes.bit (b :: rest) (8 + k) := by
        funext k
        rw [Bytes.bit_cons, if_neg (by omega), Nat.add_sub_cancel_left]
      have eighths : 8 * (b :: rest).length = 8 + 8 * rest.length := by
        rw [List.length_cons]
        omega
      rw [overwrite, ih (by rw [List.length_set]; omega), Bytes.bit_set (by omega), first, later,
        eighths]
      exact patch_append _ _ _ _ _

end ProcessData

end EcatDevice
