import EcatDevice.Eeprom.Checksum
import Mathlib.Tactic

/-! # The checksum by bits

The division takes a row of bytes bit by bit, the most significant one of each byte first. It is
linear in the register and in the bits, so two rows leave what their difference leaves, and it loses
nothing: a register that is not clear stays so through any number of zeros. Hence the checksum tells
apart any two rows of one length whose differences lie within eight neighbouring bits.
-/

namespace EcatDevice

/-- The bits of a byte, the most significant one first. -/
def byteBits (b : UInt8) : List Bool :=
  (List.range 8).map b.toBitVec.getMsbD

/-- The bits of a row of bytes, the most significant one of each byte first. -/
def Bytes.leadingBits (bytes : Bytes) : List Bool :=
  bytes.flatMap byteBits

theorem length_byteBits (b : UInt8) : (byteBits b).length = 8 := by
  simp [byteBits]

theorem byteBits_injective {a b : UInt8} (same : byteBits a = byteBits b) : a = b := by
  apply UInt8.toBitVec_inj.mp
  apply BitVec.eq_of_getMsbD_eq
  intro i few
  have here := congrArg (fun bits => bits[i]?) same
  simpa [byteBits, few] using here

/-- Eight bits are the bits of a byte. -/
theorem exists_byteBits {bits : List Bool} (eight : bits.length = 8) : ∃ b, byteBits b = bits := by
  use UInt8.ofBitVec ((BitVec.ofBoolListBE bits).cast eight)
  apply List.ext_getElem?
  intro i
  by_cases few : i < 8 <;> simp [byteBits, few, eight]

namespace Bytes

theorem length_leadingBits (bytes : Bytes) : bytes.leadingBits.length = 8 * bytes.length := by
  simp [leadingBits, List.length_flatMap, length_byteBits, Nat.mul_comm]

theorem leadingBits_injective {a b : Bytes} (length : a.length = b.length)
    (same : a.leadingBits = b.leadingBits) : a = b := by
  induction a generalizing b with
  | nil => simpa using length.symm
  | cons x a ih =>
      cases b with
      | nil => simp at length
      | cons y b =>
          simp only [leadingBits, List.flatMap_cons] at same
          obtain ⟨first, later⟩ := List.append_inj same (by simp only [length_byteBits])
          simp only [byteBits_injective first, ih (by simpa using length) later]

end Bytes

namespace Eeprom

/-! ## The register moves -/

/-- A bit at the upper end of the register. -/
def topBit (bit : Bool) : UInt8 :=
  if bit then 0x80 else 0

theorem and_top (b : UInt8) : b &&& 0x80 = topBit b.toBitVec.msb := by
  apply UInt8.toBitVec_inj.mp
  have mask : (b &&& 0x80).toBitVec = b.toBitVec &&& BitVec.twoPow 8 7 := rfl
  rw [mask, BitVec.and_twoPow, BitVec.msb_eq_getLsbD_last]
  cases b.toBitVec.getLsbD 7 <;> rfl

theorem crcShift_eq (register : UInt8) :
    crcShift register = (register <<< 1) ^^^ if register.toBitVec.msb then 0x07 else 0 := by
  simp only [crcShift, and_top]
  cases register.toBitVec.msb <;> simp [topBit]

theorem xor_xor_xor_comm (a b p q : UInt8) : a ^^^ b ^^^ (p ^^^ q) = a ^^^ p ^^^ (b ^^^ q) := by
  ac_rfl

theorem crcShift_xor (a b : UInt8) : crcShift (a ^^^ b) = crcShift a ^^^ crcShift b := by
  simp only [crcShift_eq, UInt8.shiftLeft_xor, UInt8.toBitVec_xor, BitVec.msb_xor,
    xor_xor_xor_comm _ (ite _ _ _)]
  cases a.toBitVec.msb <;> cases b.toBitVec.msb <;> simp [UInt8.xor_assoc]

/-- Nothing but zero moves to zero: what falls off at the upper end comes back at the lower one,
because the divisor has a constant term. -/
theorem crcShift_eq_zero {register : UInt8} (gone : crcShift register = 0) : register = 0 := by
  simp only [crcShift_eq] at gone
  have bits := fun i => congrArg (fun b : UInt8 => b.toBitVec.getLsbD i) gone
  cases top : register.toBitVec.msb with
  | true =>
      have low := bits 0
      simp [top] at low
  | false =>
      apply UInt8.toBitVec_inj.mp
      apply BitVec.eq_of_getLsbD_eq
      intro i few
      by_cases last : i = 7
      · subst last
        rw [BitVec.msb_eq_getLsbD_last] at top
        exact top
      · have shifted := bits (i + 1)
        have inside : i + 1 < 8 := by omega
        simp [top] at shifted
        simpa [few] using shifted inside

theorem repeat_crcShift_eq_zero {register : UInt8} {count : Nat}
    (gone : Nat.repeat crcShift count register = 0) : register = 0 := by
  induction count with
  | zero => exact gone
  | succ count ih => exact ih (crcShift_eq_zero gone)

/-! ## Bit by bit -/

/-- One bit enters the division at the upper end of the register. -/
def crcBit (register : UInt8) (bit : Bool) : UInt8 :=
  crcShift (register ^^^ topBit bit)

theorem crcShift_top (b : UInt8) : crcShift b ^^^ crcShift (topBit b.toBitVec.msb) = b <<< 1 := by
  have set : crcShift (topBit true) = 0x07 := by decide
  have clear : crcShift (topBit false) = 0 := by decide
  rw [crcShift_eq b]
  cases b.toBitVec.msb with
  | false => simp [clear]
  | true => rw [set, if_pos rfl, UInt8.xor_assoc, UInt8.xor_self, UInt8.xor_zero]

/-- Taking a byte as a whole is ahead of taking its bits by those that have not entered yet. -/
theorem foldl_crcBit_front (register b : UInt8) (count : Nat) :
    ((List.range count).map b.toBitVec.getMsbD).foldl crcBit register =
      Nat.repeat crcShift count (register ^^^ b) ^^^ UInt8.ofBitVec (b.toBitVec <<< count) := by
  induction count with
  | zero =>
      change register = register ^^^ b ^^^ UInt8.ofBitVec (b.toBitVec <<< 0)
      have whole : UInt8.ofBitVec (b.toBitVec <<< 0) = b := by simp
      rw [whole, UInt8.xor_assoc, UInt8.xor_self, UInt8.xor_zero]
  | succ count ih =>
      have top : b.toBitVec.getMsbD count = (b.toBitVec <<< count).msb := by simp
      have moved : UInt8.ofBitVec (b.toBitVec <<< count) <<< 1 =
          UInt8.ofBitVec (b.toBitVec <<< (count + 1)) := by
        apply UInt8.toBitVec_inj.mp
        simp [BitVec.shiftLeft_add]
      simp only [List.range_succ, List.map_append, List.foldl_append, ih, List.map_cons,
        List.map_nil, List.foldl_cons, List.foldl_nil]
      rw [crcBit, crcShift_xor, crcShift_xor, UInt8.xor_assoc, top, ← moved, ← crcShift_top,
        UInt8.toBitVec_ofBitVec]
      rfl

theorem crcByte_eq_foldl (register b : UInt8) :
    crcByte register b = (byteBits b).foldl crcBit register := by
  have gone : UInt8.ofBitVec (b.toBitVec <<< 8) = 0 := by simp
  rw [byteBits, foldl_crcBit_front, gone, UInt8.xor_zero, crcByte]

theorem crc8_eq_foldl (bytes : Bytes) : crc8 bytes = bytes.leadingBits.foldl crcBit 0xff := by
  have step : crcByte = fun register b => (byteBits b).foldl crcBit register := by
    funext register b
    exact crcByte_eq_foldl register b
  rw [crc8, step, Bytes.leadingBits, List.foldl_flatMap]

theorem crcBit_xor (r q : UInt8) (x y : Bool) :
    crcBit r x ^^^ crcBit q y = crcBit (r ^^^ q) (x ^^ y) := by
  have tops : topBit x ^^^ topBit y = topBit (x ^^ y) := by
    cases x <;> cases y <;> rfl
  simp only [crcBit, ← crcShift_xor, ← tops, xor_xor_xor_comm]

/-- What two rows leave differs by what their difference leaves. -/
theorem foldl_crcBit_xor {xs ys : List Bool} (length : xs.length = ys.length) (r q : UInt8) :
    xs.foldl crcBit r ^^^ ys.foldl crcBit q =
      (List.zipWith xor xs ys).foldl crcBit (r ^^^ q) := by
  induction xs generalizing ys r q with
  | nil =>
      cases ys with
      | nil => rfl
      | cons y ys => simp at length
  | cons x xs ih =>
      cases ys with
      | nil => simp at length
      | cons y ys =>
          have shorter : xs.length = ys.length := by simpa using length
          simp only [List.foldl_cons, List.zipWith_cons_cons, ih shorter, crcBit_xor]

/-! ## Bursts -/

/-- A row without set bits neither clears the register nor sets it. -/
theorem foldl_crcBit_quiet {bits : List Bool} (quiet : true ∉ bits) (register : UInt8) :
    bits.foldl crcBit register = 0 ↔ register = 0 := by
  induction bits generalizing register with
  | nil => rfl
  | cons bit bits ih =>
      cases bit with
      | true => simp at quiet
      | false =>
          have step : crcBit register false = crcShift register := by simp [crcBit, topBit]
          rw [List.foldl_cons, step, ih (by simpa using quiet)]
          constructor
          · exact crcShift_eq_zero
          · rintro rfl
            rfl

/-- Eight bits fill the register, so it is clear behind them only if they are. -/
theorem quiet_of_eight {bits : List Bool} (eight : bits.length = 8)
    (gone : bits.foldl crcBit 0 = 0) : true ∉ bits := by
  obtain ⟨b, rfl⟩ := exists_byteBits eight
  rw [← crcByte_eq_foldl, crcByte, UInt8.zero_xor] at gone
  rw [repeat_crcShift_eq_zero gone]
  decide

/-- The set bits of a row lie within eight places. -/
def Burst (start : Nat) (bits : List Bool) : Prop :=
  ∀ i, bits[i]? = some true → start ≤ i ∧ i < start + 8

theorem Burst.append_zeros {start : Nat} {bits : List Bool} (burst : Burst start bits)
    (count : Nat) : Burst start (bits ++ List.replicate count false) := by
  intro i found
  apply burst i
  rw [List.getElem?_append] at found
  split at found
  · exact found
  · simp [List.getElem?_replicate] at found

theorem Burst.quiet_of_room {start : Nat} {bits : List Bool} (burst : Burst start bits)
    (room : start + 8 ≤ bits.length) (gone : bits.foldl crcBit 0 = 0) : true ∉ bits := by
  have front : true ∉ bits.take start := by
    intro member
    obtain ⟨i, found⟩ := List.mem_iff_getElem?.mp member
    rw [List.getElem?_take] at found
    split at found
    · have := burst i found
      omega
    · simp at found
  have back : true ∉ bits.drop (start + 8) := by
    intro member
    obtain ⟨i, found⟩ := List.mem_iff_getElem?.mp member
    rw [List.getElem?_drop] at found
    have := burst _ found
    omega
  have eight : ((bits.drop start).take 8).length = 8 := by
    simp
    omega
  have split : bits = bits.take start ++ ((bits.drop start).take 8 ++ bits.drop (start + 8)) := by
    rw [← List.drop_drop, List.take_append_drop, List.take_append_drop]
  have clear : (bits.take start).foldl crcBit 0 = 0 := (foldl_crcBit_quiet front 0).mpr rfl
  rw [split, List.foldl_append, List.foldl_append, clear, foldl_crcBit_quiet back] at gone
  rw [split]
  simp only [List.mem_append, not_or]
  exact ⟨front, quiet_of_eight eight gone, back⟩

/-- A burst does not leave the register clear. -/
theorem Burst.quiet {start : Nat} {bits : List Bool} (burst : Burst start bits)
    (gone : bits.foldl crcBit 0 = 0) : true ∉ bits := by
  -- Zeros behind the row make room for the whole window and keep the register clear.
  have zeros : true ∉ List.replicate (start + 8) false := by simp
  have wide : (bits ++ List.replicate (start + 8) false).foldl crcBit 0 = 0 := by
    rw [List.foldl_append, foldl_crcBit_quiet zeros, gone]
  have none := (burst.append_zeros (start + 8)).quiet_of_room (by simp) wide
  intro member
  exact none (List.mem_append_left _ member)

theorem eq_of_zipWith_xor {xs ys : List Bool} (length : xs.length = ys.length)
    (quiet : true ∉ List.zipWith xor xs ys) : xs = ys := by
  apply List.ext_getElem length
  intro i left right
  have here : (xs[i] ^^ ys[i]) ∈ List.zipWith xor xs ys :=
    List.mem_iff_getElem.mpr ⟨i, by simp [left, right], by simp⟩
  cases differs : (xs[i] ^^ ys[i]) with
  | true => exact absurd (differs ▸ here) quiet
  | false => simpa using differs

/-- Rows of one length that differ within eight neighbouring bits have different checksums. -/
theorem crc8_burst {a b : Bytes} (length : a.length = b.length) (differ : a ≠ b) (start : Nat)
    (window : ∀ i, a.leadingBits[i]? ≠ b.leadingBits[i]? → start ≤ i ∧ i < start + 8) :
    crc8 a ≠ crc8 b := by
  intro equal
  have rows : a.leadingBits.length = b.leadingBits.length := by
    simp only [Bytes.length_leadingBits, length]
  have gone : (List.zipWith xor a.leadingBits b.leadingBits).foldl crcBit 0 = 0 := by
    have difference := foldl_crcBit_xor rows 0xff 0xff
    simpa [← crc8_eq_foldl, equal] using difference.symm
  have burst : Burst start (List.zipWith xor a.leadingBits b.leadingBits) := by
    intro i found
    apply window
    intro alike
    simp only [List.getElem?_zipWith, alike] at found
    cases here : b.leadingBits[i]? <;> simp [here] at found
  apply differ
  apply Bytes.leadingBits_injective length
  exact eq_of_zipWith_xor rows (burst.quiet gone)

/-- Differences over the border of two bytes, with one more byte behind. -/
theorem crc8_burst_border : crc8 [0x12, 0x34, 0x56, 0x78] ≠ crc8 [0x12, 0x39, 0xd6, 0x78] := by
  let a : Bytes := [0x12, 0x34, 0x56, 0x78]
  let b : Bytes := [0x12, 0x39, 0xd6, 0x78]
  have near : ∀ i < 32, a.leadingBits[i]? ≠ b.leadingBits[i]? → 12 ≤ i ∧ i < 12 + 8 := by decide
  apply crc8_burst (a := a) (b := b) rfl (by decide) 12
  intro i differs
  by_cases few : i < 32
  · exact near i few differs
  · have none : a.leadingBits[i]? = none ∧ b.leadingBits[i]? = none := by
      simpa [Bytes.length_leadingBits, a, b] using few
    exact absurd (none.1.trans none.2.symm) differs

end Eeprom

end EcatDevice
