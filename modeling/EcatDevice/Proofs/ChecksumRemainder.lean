import EcatDevice.Proofs.ChecksumBits
import Mathlib.Algebra.CharP.Two
import Mathlib.RingTheory.AdjoinRoot
import Mathlib.Tactic.ComputeDegree

/-! # The checksum as a remainder

A byte is a polynomial over the field of two elements, its bits being the coefficients, and so is a
row of bytes, the first byte leading. A move of the register multiplies by `X` modulo the divisor.
Hence the register holds, modulo the divisor, what it started with and the bytes it has taken, each
moved up by all the bits behind; and since no byte reaches the degree of the divisor, the checksum
is the remainder itself.
-/

namespace EcatDevice

open Polynomial

/-- The polynomial with the bits of a byte as coefficients, the least significant one constant. -/
noncomputable def bytePolynomial (b : UInt8) : (ZMod 2)[X] :=
  ∑ i ∈ Finset.range 8, if b.toBitVec.getLsbD i then X ^ i else 0

/-- The polynomial of a row of bytes: the most significant bit of the first byte leads. -/
noncomputable def Bytes.polynomial : Bytes → (ZMod 2)[X]
  | [] => 0
  | b :: rest => bytePolynomial b * X ^ (8 * rest.length) + polynomial rest

theorem coeff_bytePolynomial (b : UInt8) (i : Nat) :
    (bytePolynomial b).coeff i = if b.toBitVec.getLsbD i then 1 else 0 := by
  have each : ∀ k, (if b.toBitVec.getLsbD k then (X : (ZMod 2)[X]) ^ k else 0).coeff i =
      if i = k then if b.toBitVec.getLsbD k then 1 else 0 else 0 := by
    intro k
    split <;> simp [coeff_X_pow]
  simp only [bytePolynomial, finsetSum_coeff, each, Finset.sum_ite_eq, Finset.mem_range]
  by_cases few : i < 8
  · rw [if_pos few]
  · rw [if_neg few, BitVec.getLsbD_of_ge _ _ (by omega)]
    rfl

theorem bytePolynomial_injective : Function.Injective bytePolynomial := by
  intro a b same
  apply UInt8.toBitVec_inj.mp
  apply BitVec.eq_of_getLsbD_eq
  intro i few
  have here := congrArg (fun p => p.coeff i) same
  simp only [coeff_bytePolynomial] at here
  cases left : a.toBitVec.getLsbD i <;> cases right : b.toBitVec.getLsbD i <;>
    simp [left, right] at here ⊢

theorem bytePolynomial_xor (a b : UInt8) :
    bytePolynomial (a ^^^ b) = bytePolynomial a + bytePolynomial b := by
  have carry : (1 : ZMod 2) + 1 = 0 := by decide
  ext i
  simp only [coeff_add, coeff_bytePolynomial, UInt8.toBitVec_xor, BitVec.getLsbD_xor]
  cases a.toBitVec.getLsbD i <;> cases b.toBitVec.getLsbD i <;> simp [carry]

/-- Moving up multiplies by `X`, and the bit that falls off is the coefficient of `X ^ 8`. -/
theorem bytePolynomial_shiftLeft (b : UInt8) :
    bytePolynomial (b <<< 1) + (if b.toBitVec.msb then X ^ 8 else 0) = bytePolynomial b * X := by
  ext i
  have top : (if b.toBitVec.msb then (X : (ZMod 2)[X]) ^ 8 else 0).coeff i =
      if i = 8 then if b.toBitVec.getLsbD 7 then 1 else 0 else 0 := by
    rw [BitVec.msb_eq_getLsbD_last]
    split <;> simp [coeff_X_pow, *]
  have moved : (b <<< 1).toBitVec = b.toBitVec <<< 1 := rfl
  rw [coeff_add, top, coeff_bytePolynomial, moved, BitVec.getLsbD_shiftLeft]
  cases i with
  | zero => simp
  | succ i =>
      rw [coeff_mul_X, coeff_bytePolynomial]
      by_cases inside : i + 1 < 8
      · have below : i ≠ 7 := by omega
        simp [inside, below]
      · by_cases last : i = 7
        · simp [last]
        · have beyond : b.toBitVec.getLsbD i = false := BitVec.getLsbD_of_ge _ _ (by omega)
          simp [inside, last, beyond]

theorem degree_bytePolynomial_lt (b : UInt8) : (bytePolynomial b).degree < 8 := by
  apply (degree_lt_iff_coeff_zero _ 8).mpr
  intro i many
  rw [coeff_bytePolynomial, BitVec.getLsbD_of_ge _ _ many]
  rfl

namespace Eeprom

open AdjoinRoot (mk mk_eq_mk)

/-- The divisor of the checksum. -/
noncomputable def crcDivisor : (ZMod 2)[X] :=
  X ^ 8 + X ^ 2 + X + 1

theorem degree_crcDivisor : crcDivisor.degree = 8 := by
  unfold crcDivisor
  compute_degree!

theorem monic_crcDivisor : crcDivisor.Monic := by
  unfold crcDivisor
  monicity!

/-! ## The register modulo the divisor -/

/-- A move multiplies by `X`: what falls off as `X ^ 8` comes back as the rest of the divisor. -/
theorem mk_crcShift (register : UInt8) :
    mk crcDivisor (bytePolynomial (crcShift register)) =
      mk crcDivisor (bytePolynomial register * X) := by
  have low : bytePolynomial 0x07 = X ^ 2 + X + 1 := by
    simp [bytePolynomial, Finset.sum_range_succ]
    ring
  rw [mk_eq_mk, crcShift_eq, bytePolynomial_xor, ← bytePolynomial_shiftLeft]
  cases register.toBitVec.msb with
  | true =>
      use 1
      rw [if_pos rfl, if_pos rfl, low, CharTwo.sub_eq_add, crcDivisor]
      linear_combination CharTwo.add_self_eq_zero (bytePolynomial (register <<< 1))
  | false =>
      have none : bytePolynomial 0 = 0 := by simp [bytePolynomial]
      simp [none]

theorem mk_repeat_crcShift (register : UInt8) (count : Nat) :
    mk crcDivisor (bytePolynomial (Nat.repeat crcShift count register)) =
      mk crcDivisor (bytePolynomial register * X ^ count) := by
  induction count with
  | zero => simp [Nat.repeat]
  | succ count ih =>
      rw [Nat.repeat, mk_crcShift, map_mul, ih, ← map_mul, pow_succ, mul_assoc]

theorem mk_crcByte (register b : UInt8) :
    mk crcDivisor (bytePolynomial (crcByte register b)) =
      mk crcDivisor ((bytePolynomial register + bytePolynomial b) * X ^ 8) := by
  rw [crcByte, mk_repeat_crcShift, bytePolynomial_xor]

/-- The register behind a row of bytes, from any start. -/
theorem mk_foldl_crcByte (bytes : Bytes) (register : UInt8) :
    mk crcDivisor (bytePolynomial (bytes.foldl crcByte register)) =
      mk crcDivisor (bytes.polynomial * X ^ 8 +
        bytePolynomial register * X ^ (8 * bytes.length)) := by
  induction bytes generalizing register with
  | nil => simp [Bytes.polynomial]
  | cons b rest ih =>
      -- An identity of polynomials, stated outside the quotient where `ring` is at home.
      have same : Bytes.polynomial rest * X ^ 8 + (bytePolynomial register + bytePolynomial b) *
          X ^ 8 * X ^ (8 * rest.length) = Bytes.polynomial (b :: rest) * X ^ 8 +
            bytePolynomial register * X ^ (8 * (b :: rest).length) := by
        rw [Bytes.polynomial, List.length_cons]
        ring
      rw [List.foldl_cons, ih, ← same, map_add, map_add, map_mul _ (bytePolynomial _), mk_crcByte,
        ← map_mul]

/-! ## The remainder -/

/-- The checksum is the one byte whose polynomial is the remainder of the bytes, moved up by eight
bits, and of eight set bits in front of them. -/
theorem crc8_eq_iff_remainder (bytes : Bytes) (sum : UInt8) :
    crc8 bytes = sum ↔
      bytePolynomial sum =
        (bytes.polynomial * X ^ 8 + (∑ i ∈ Finset.range 8, X ^ i) * X ^ (8 * bytes.length)) %ₘ
          (X ^ 8 + X ^ 2 + X + 1) := by
  have start : bytePolynomial 0xff = ∑ i ∈ Finset.range 8, X ^ i := by
    simp [bytePolynomial, Finset.sum_range_succ]
  have small : (bytePolynomial (crc8 bytes)).degree < crcDivisor.degree := by
    rw [degree_crcDivisor]
    exact degree_bytePolynomial_lt _
  have remainder := modByMonic_eq_of_dvd_sub monic_crcDivisor
    (mk_eq_mk.mp (mk_foldl_crcByte bytes 0xff))
  rw [← crc8, (modByMonic_eq_self_iff monic_crcDivisor).mpr small, start] at remainder
  rw [← crcDivisor, ← remainder, bytePolynomial_injective.eq_iff, eq_comm]

end Eeprom

end EcatDevice
