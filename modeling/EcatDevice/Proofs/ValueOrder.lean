import EcatDevice.Value
import Mathlib.Tactic

/-! # The order of values

Integers are compared exactly, but an integer and a real only after the integer is rounded. Rounding
never reverses two integers, so the order is total and can be read from either side; but it can make
two integers equal, and a real between them then ties with both. This is the only way in which the
order fails to be transitive, and it takes an integer of more than 53 bits.
-/

namespace EcatDevice

/-! ## Rounding of quotients -/

theorem roundQuotient_mul {den : Nat} (positive : 0 < den) (q : Nat) :
    roundQuotient (q * den) den = q := by
  simp [roundQuotient, Nat.mul_div_cancel q positive, positive]

theorem roundQuotient_mono {num other den : Nat} (le : num ≤ other) :
    roundQuotient num den ≤ roundQuotient other den := by
  have quotients : num / den ≤ other / den := Nat.div_le_div_right le
  rcases quotients.lt_or_eq with less | same
  · -- Rounding up reaches at most the next quotient.
    simp only [roundQuotient]
    split <;> split <;> omega
  · have first := Nat.div_add_mod num den
    have second := Nat.div_add_mod other den
    rw [same] at first
    have remainders : num % den ≤ other % den := by omega
    simp only [roundQuotient, same]
    split <;> split <;> omega

/-! ## Rounding of whole numbers -/

theorem quotientLog2_one {n : Nat} (nonzero : n ≠ 0) : quotientLog2 n 1 = n.log2 := by
  have one : Nat.log2 1 = 0 := by decide
  have reached : twoPower n.log2 ≤ n := Nat.log2_self_le nonzero
  simp [quotientLog2, scaleByTwo, one, twoPower] at reached ⊢
  exact reached

/-- The significand of a whole number before it is rounded, as a quotient. -/
def significand (n : Nat) : Nat × Nat :=
  (n * 2 ^ (52 - n.log2), 2 ^ (n.log2 - 52))

/-- Pattern of the 64-bit number nearest to a whole number, if there were no largest one. -/
def wholePattern (n : Nat) : Nat :=
  (n.log2 + 1022) * 2 ^ 52 + roundQuotient (significand n).1 (significand n).2

theorem round_whole {n : Nat} (nonzero : n ≠ 0) :
    BinaryFormat.binary64.round n 1 = min (wholePattern n) BinaryFormat.binary64.infinity := by
  have exponent : max ((n.log2 : Int) - 52) (-1074) = n.log2 - 52 := by omega
  have down : (-((n.log2 : Int) - 52)).toNat = 52 - n.log2 := by omega
  have up : (- -((n.log2 : Int) - 52)).toNat = n.log2 - 52 := by omega
  have biased : ((n.log2 : Int) - 52 + 1074).toNat = n.log2 + 1022 := by omega
  simp only [BinaryFormat.round, if_neg nonzero, quotientLog2_one nonzero,
    BinaryFormat.binary64, scaleByTwo, Nat.cast_ofNat, exponent, down, up, biased, one_mul]
  rfl

theorem significand_bounds {n : Nat} (nonzero : n ≠ 0) :
    2 ^ 52 * (significand n).2 ≤ (significand n).1 ∧
      (significand n).1 < 2 ^ 53 * (significand n).2 := by
  have low := Nat.log2_self_le nonzero
  have high := Nat.lt_log2_self (n := n)
  have lowExponent : 52 + (n.log2 - 52) = n.log2 + (52 - n.log2) := by omega
  have highExponent : 53 + (n.log2 - 52) = n.log2 + 1 + (52 - n.log2) := by omega
  rw [significand, ← pow_add, ← pow_add, lowExponent, highExponent, pow_add, pow_add _ (n.log2 + 1)]
  exact ⟨Nat.mul_le_mul_right _ low, Nat.mul_lt_mul_of_pos_right high (by positivity)⟩

theorem wholePattern_bounds {n : Nat} (nonzero : n ≠ 0) :
    (n.log2 + 1022) * 2 ^ 52 + 2 ^ 52 ≤ wholePattern n ∧
      wholePattern n ≤ (n.log2 + 1022) * 2 ^ 52 + 2 ^ 53 := by
  obtain ⟨low, high⟩ := significand_bounds nonzero
  have positive : 0 < (significand n).2 := by
    unfold significand
    positivity
  have least : roundQuotient _ (significand n).2 ≤ _ := roundQuotient_mono low
  have most : _ ≤ roundQuotient _ (significand n).2 := roundQuotient_mono high.le
  rw [roundQuotient_mul positive] at least most
  exact ⟨Nat.add_le_add_left least _, Nat.add_le_add_left most _⟩

theorem log2_le_of_le {n m : Nat} (nonzero : n ≠ 0) (le : n ≤ m) : n.log2 ≤ m.log2 :=
  (Nat.le_log2 (by omega)).mpr ((Nat.log2_self_le nonzero).trans le)

theorem wholePattern_mono {n m : Nat} (nonzero : n ≠ 0) (le : n ≤ m) :
    wholePattern n ≤ wholePattern m := by
  rcases (log2_le_of_le nonzero le).lt_or_eq with less | same
  · have most := (wholePattern_bounds nonzero).2
    have least := (wholePattern_bounds (by omega : m ≠ 0)).1
    omega
  · unfold wholePattern significand
    rw [same]
    exact Nat.add_le_add_left (roundQuotient_mono (Nat.mul_le_mul_right _ le)) _

/-- Up to 53 bits nothing is rounded. -/
theorem wholePattern_exact {n : Nat} (small : n < 2 ^ 53) (nonzero : n ≠ 0) :
    wholePattern n = (n.log2 + 1022) * 2 ^ 52 + n * 2 ^ (52 - n.log2) := by
  have few : n.log2 < 53 := (Nat.log2_lt nonzero).mpr small
  have none : n.log2 - 52 = 0 := by omega
  have whole := roundQuotient_mul (Nat.one_pos) (n * 2 ^ (52 - n.log2))
  rw [Nat.mul_one] at whole
  rw [wholePattern, significand, none, pow_zero, whole]

theorem wholePattern_strictMono {n m : Nat} (nonzero : n ≠ 0) (less : n < m)
    (small : m ≤ 2 ^ 53) : wholePattern n < wholePattern m := by
  have exact := wholePattern_exact (by omega) nonzero
  rcases (log2_le_of_le nonzero less.le).lt_or_eq with fewer | same
  · have least := (wholePattern_bounds (by omega : m ≠ 0)).1
    have few : n.log2 < 53 := (Nat.log2_lt nonzero).mpr (by omega)
    have high := (significand_bounds nonzero).2
    rw [significand, (by omega : n.log2 - 52 = 0)] at high
    omega
  · have smaller : m < 2 ^ 53 := by
      have bound := Nat.lt_log2_self (n := m)
      rw [← same] at bound
      have few : n.log2 < 53 := (Nat.log2_lt nonzero).mpr (by omega)
      exact bound.trans_le (Nat.pow_le_pow_right (by decide) few)
    rw [exact, wholePattern_exact smaller (by omega), ← same]
    have more := Nat.mul_lt_mul_of_pos_right less (Nat.two_pow_pos (52 - n.log2))
    omega

namespace Real64

/-- Pattern of the magnitude that a whole number is rounded to. -/
def rounded (n : Nat) : Nat := BinaryFormat.binary64.round n 1

theorem rounded_zero : rounded 0 = 0 := by
  decide

theorem rounded_mono {n m : Nat} (le : n ≤ m) : rounded n ≤ rounded m := by
  by_cases zero : n = 0
  · rw [zero, rounded_zero]
    exact Nat.zero_le _
  · rw [rounded, rounded, round_whole zero, round_whole (by omega)]
    exact min_le_min_right _ (wholePattern_mono zero le)

theorem rounded_strictMono {n m : Nat} (less : n < m) (small : m ≤ 2 ^ 53) :
    rounded n < rounded m := by
  have least := (wholePattern_bounds (by omega : m ≠ 0)).1
  have most := (wholePattern_bounds (by omega : m ≠ 0)).2
  have few : m.log2 < 54 := (Nat.log2_lt (by omega)).mpr (by omega)
  have infinity : BinaryFormat.binary64.infinity = 2047 * 2 ^ 52 := by
    norm_num [BinaryFormat.binary64]
  have finite : wholePattern m ≤ BinaryFormat.binary64.infinity := by omega
  have whole : rounded m = wholePattern m := by
    rw [rounded, round_whole (by omega), min_eq_left finite]
  rw [whole]
  by_cases zero : n = 0
  · rw [zero, rounded_zero]
    omega
  · rw [rounded, round_whole zero]
    exact (min_le_left _ _).trans_lt (wholePattern_strictMono zero less small)

theorem rounded_lt (n : Nat) : rounded n < signBit := by
  have bound : BinaryFormat.binary64.infinity < signBit := by decide
  by_cases zero : n = 0
  · rw [zero, rounded_zero]
    decide
  · rw [rounded, round_whole zero]
    exact (min_le_right _ _).trans_lt bound

/-! ## Positions in the total order -/

theorem orderKey_ofMagnitude {magnitude : Nat} (small : magnitude < signBit) (negative : Bool) :
    (ofMagnitude negative magnitude).orderKey =
      if negative then -(magnitude : Int) - 1 else magnitude := by
  unfold signBit at small
  have bits : (ofMagnitude negative magnitude).bits.toNat =
      if negative then signBit + magnitude else magnitude := by
    rw [ofMagnitude, UInt64.toNat_ofNat']
    unfold signBit
    split <;> omega
  cases negative <;>
    simp only [orderKey, isNegative, Real64.magnitude, bits, signBit, decide_eq_true_eq] <;>
    grind

theorem orderKey_ofInt (n : Int) :
    (ofInt n).orderKey = if n < 0 then -(rounded n.natAbs : Int) - 1 else rounded n.natAbs := by
  have key := orderKey_ofMagnitude (rounded_lt n.natAbs) (n < 0)
  simp only [decide_eq_true_eq] at key
  exact key

/-- Rounding never reverses two integers. -/
theorem orderKey_ofInt_mono {n m : Int} (le : n ≤ m) :
    (ofInt n).orderKey ≤ (ofInt m).orderKey := by
  rw [orderKey_ofInt, orderKey_ofInt]
  split
  · split
    · have := rounded_mono (by omega : m.natAbs ≤ n.natAbs)
      omega
    · omega
  · rw [if_neg (by omega)]
    have := rounded_mono (by omega : n.natAbs ≤ m.natAbs)
    omega

theorem orderKey_ofInt_strictMono {n m : Int} (less : n < m) (low : n.natAbs ≤ 2 ^ 53)
    (high : m.natAbs ≤ 2 ^ 53) : (ofInt n).orderKey < (ofInt m).orderKey := by
  rw [orderKey_ofInt, orderKey_ofInt]
  split
  · split
    · have := rounded_strictMono (by omega : m.natAbs < n.natAbs) low
      omega
    · omega
  · rw [if_neg (by omega)]
    have := rounded_strictMono (by omega : n.natAbs < m.natAbs) high
    omega

theorem orderKey_injective {x y : Real64} (same : x.orderKey = y.orderKey) : x = y := by
  have first := x.bits.toNat_lt
  have second := y.bits.toNat_lt
  have bits : x.bits.toNat = y.bits.toNat := by
    simp only [orderKey, isNegative, magnitude, signBit] at same
    grind
  cases x
  cases y
  exact congrArg Real64.mk (UInt64.toNat_inj.mp bits)

end Real64

/-! ## Values -/

namespace Value

open Real64

/-- A real that equals two integers after rounding, the larger integer in front. -/
def Straddles : Value → Value → Value → Prop
  | .int high, .real x, .int low =>
    low.toInt < high.toInt ∧ ofInt high.toInt = x ∧ ofInt low.toInt = x
  | _, _, _ => False

theorem order_swap (a b : Value) : b.order a = (a.order b).swap := by
  cases a <;> cases b <;> simp only [order, compareTotal, Ordering.swap]
  all_goals exact Std.OrientedOrd.eq_swap

theorem compare_ne_gt_iff {n m : Int} : compare n m ≠ .gt ↔ n ≤ m := by
  rw [ne_eq, compare_gt_iff_gt, not_lt]

theorem order_trans_iff {a b c : Value} (first : a.order b ≠ .gt) (second : b.order c ≠ .gt) :
    a.order c ≠ .gt ↔ ¬ Straddles a b c := by
  -- A text is followed by texts only, and among numbers all but one case compare by `orderKey`.
  cases a <;> cases b <;> cases c <;>
    simp only [order, compareTotal, Straddles, compare_ne_gt_iff, not_false_iff, iff_true,
      not_true, ne_eq, reduceCtorEq] at first second ⊢
  case int.int.int => exact first.trans second
  case int.int.real => exact (orderKey_ofInt_mono first).trans second
  case real.int.int => exact first.trans (orderKey_ofInt_mono second)
  case int.real.real | real.int.real | real.real.int | real.real.real => exact first.trans second
  case str.str.str a b c =>
    rw [← Ordering.isLE_iff_ne_gt] at first second ⊢
    exact Std.TransOrd.isLE_trans first second
  case int.real.int high x low =>
    constructor
    · rintro le ⟨less, -⟩
      omega
    · intro apart
      by_contra less
      -- Both integers are rounded to the real between them.
      have back := orderKey_ofInt_mono (not_le.mp less).le
      refine apart ⟨not_le.mp less, orderKey_injective ?_, orderKey_injective ?_⟩ <;> omega

theorem straddles_wide {high low : Int64} {x : Value}
    (straddles : Straddles (.int high) x (.int low)) :
    2 ^ 53 < max high.toInt.natAbs low.toInt.natAbs := by
  cases x with
  | int n => exact straddles.elim
  | str s => exact straddles.elim
  | real x =>
      obtain ⟨less, first, second⟩ := straddles
      by_contra narrow
      have apart := orderKey_ofInt_strictMono less (by omega) (by omega)
      rw [first, second] at apart
      exact lt_irrefl _ apart

/-- The order of values is a total preorder except where a real ties with two different integers,
one of them of more than 53 bits: there the larger integer is not greater than the real, the real
not greater than the smaller one, and still the larger integer is greater. -/
theorem order_preorder_iff (a b c : Value) :
    b.order a = (a.order b).swap ∧
    (a.order b ≠ .gt → b.order c ≠ .gt → (a.order c ≠ .gt ↔ ¬ Straddles a b c)) ∧
    ∀ high low, a = .int high → c = .int low → Straddles a b c →
      2 ^ 53 < max high.toInt.natAbs low.toInt.natAbs := by
  refine ⟨order_swap a b, order_trans_iff, ?_⟩
  rintro high low rfl rfl straddles
  exact straddles_wide straddles

/-- The real `2 ^ 53` ties with the integers `2 ^ 53 + 1` and `2 ^ 53`. -/
theorem order_beyond_precision :
    (Value.int 9007199254740993).order (.real ⟨0x4340000000000000⟩) ≠ .gt ∧
    (Value.real ⟨0x4340000000000000⟩).order (.int 9007199254740992) ≠ .gt ∧
    (Value.int 9007199254740993).order (.int 9007199254740992) = .gt := by
  have first : (Value.int 9007199254740993).order (.real ⟨0x4340000000000000⟩) ≠ .gt := by
    decide +kernel
  have second : (Value.real ⟨0x4340000000000000⟩).order (.int 9007199254740992) ≠ .gt := by
    decide +kernel
  have straddles : Straddles (.int 9007199254740993) (.real ⟨0x4340000000000000⟩)
      (.int 9007199254740992) :=
    ⟨by decide, by decide +kernel, by decide +kernel⟩
  have fails := ((order_preorder_iff _ _ _).2.1 first second).not.mpr (not_not_intro straddles)
  exact ⟨first, second, not_not.mp fails⟩

end Value

end EcatDevice
