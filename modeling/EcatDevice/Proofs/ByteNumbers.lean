import EcatDevice.Proofs.Bits

/-! # Numbers in rows of bytes

A number that a row of bytes can hold is read back from its bytes, and every row of bytes holds the
number it was read as. Integers in two's complement are read back from the same bytes.
-/

namespace EcatDevice.Bytes

theorem toNat_lt (bytes : Bytes) : toNat bytes < valueCount bytes.length := by
  induction bytes with
  | nil => exact Nat.one_pos
  | cons b rest ih =>
      have small := b.toNat_lt
      have more : valueCount (rest.length + 1) = valueCount rest.length * 256 := Nat.pow_succ _ _
      rw [toNat, List.length_cons, more]
      omega

theorem toNat_littleEndian (width n : Nat) :
    toNat (littleEndian width n) = n % valueCount width := by
  induction width generalizing n with
  | zero => exact (Nat.mod_one n).symm
  | succ width ih =>
      have more : valueCount (width + 1) = 256 * valueCount width := Nat.pow_succ'
      rw [littleEndian, toNat, ih, UInt8.toNat_ofNat', more, Nat.mod_mul]

theorem toNat_littleEndian_of_lt {width n : Nat} (small : n < valueCount width) :
    toNat (littleEndian width n) = n := by
  rw [toNat_littleEndian, Nat.mod_eq_of_lt small]

theorem littleEndian_toNat (bytes : Bytes) : littleEndian bytes.length (toNat bytes) = bytes := by
  induction bytes with
  | nil => rfl
  | cons b rest ih =>
      have small : b.toNat < 256 := b.toNat_lt
      have first : UInt8.ofNat (b.toNat + 256 * toNat rest) = b := by
        apply UInt8.toNat_inj.mp
        rw [UInt8.toNat_ofNat']
        omega
      have later : (b.toNat + 256 * toNat rest) / 256 = toNat rest := by omega
      rw [List.length_cons, toNat, littleEndian, first, later, ih]

/-! ## Integers -/

theorem length_ofInt (width : Nat) (n : Int) : (ofInt width n).length = width :=
  length_littleEndian width _

theorem toNat_ofInt (width : Nat) (n : Int) :
    (toNat (ofInt width n) : Int) = n % (valueCount width : Int) := by
  have some : 0 < valueCount width := Nat.pow_pos (by decide)
  have lower := Int.emod_nonneg n (b := valueCount width) (by omega)
  have upper := Int.emod_lt_of_pos n (b := valueCount width) (by omega)
  rw [ofInt, toNat_littleEndian_of_lt (by omega)]
  omega

theorem toNat_ofInt_of_lt {width : Nat} {n : Int} (lower : 0 ≤ n)
    (upper : n < valueCount width) : (toNat (ofInt width n) : Int) = n := by
  rw [toNat_ofInt, Int.emod_eq_of_lt lower upper]

/-- Two's complement reads back every integer in the lower half above zero and the upper half
below. -/
theorem toInt_ofInt {width : Nat} {n : Int} (lower : -((valueCount width : Int) / 2) ≤ n)
    (upper : n < (valueCount width : Int) / 2) : toInt (ofInt width n) = n := by
  have value := toNat_ofInt width n
  rw [toInt, length_ofInt]
  by_cases sign : 0 ≤ n
  · rw [Int.emod_eq_of_lt sign (by omega)] at value
    rw [if_pos (by omega), value]
  · have wrapped : n % (valueCount width : Int) = n + valueCount width := by
      rw [← Int.add_emod_right, Int.emod_eq_of_lt (by omega) (by omega)]
    rw [wrapped] at value
    rw [if_neg (by omega), value]
    omega

end EcatDevice.Bytes
