import EcatDevice.Object.Sub
import EcatDevice.Proofs.ByteNumbers
import EcatDevice.Proofs.ListingReading

/-! # Encoding of default values

An encoding takes the values that its bytes can hold and refuses all others: integers in the range
of their width, numbers for a real, texts that are short enough. What it takes can be read from the
bytes again, and the hexadecimal text of a default value stands for the same bytes.
-/

namespace EcatDevice

namespace Encoding

/-- The values that an encoding can hold. A zero stands for an empty text. -/
def Takes : Encoding → Value → Prop
  | .unsigned width, .int n => 0 ≤ n.toInt ∧ n.toInt < 256 ^ width
  | .signed width, .int n => -(256 ^ width / 2) ≤ n.toInt ∧ n.toInt < 256 ^ width / 2
  | .real32, .int _ => True
  | .real32, .real _ => True
  | .text size, .str s => s.utf8ByteSize ≤ size
  | .text _, .int n => n = 0
  | _, _ => False

instance : (e : Encoding) → (value : Value) → Decidable (e.Takes value)
  | .unsigned _, .int _ => inferInstanceAs (Decidable (_ ∧ _))
  | .unsigned _, .real _ => inferInstanceAs (Decidable False)
  | .unsigned _, .str _ => inferInstanceAs (Decidable False)
  | .signed _, .int _ => inferInstanceAs (Decidable (_ ∧ _))
  | .signed _, .real _ => inferInstanceAs (Decidable False)
  | .signed _, .str _ => inferInstanceAs (Decidable False)
  | .real32, .int _ => inferInstanceAs (Decidable True)
  | .real32, .real _ => inferInstanceAs (Decidable True)
  | .real32, .str _ => inferInstanceAs (Decidable False)
  | .text _, .int _ => inferInstanceAs (Decidable (_ = _))
  | .text _, .real _ => inferInstanceAs (Decidable False)
  | .text _, .str _ => inferInstanceAs (Decidable (_ ≤ _))

/-- What is read from bytes is the value. Of a real, it is the nearest one of 32 bits. -/
def Holds (bytes : Bytes) : Encoding → Value → Prop
  | .unsigned _, .int n => (Bytes.toNat bytes : Int) = n.toInt
  | .signed _, .int n => Bytes.toInt bytes = n.toInt
  | .real32, .int n => Bytes.toNat bytes = (Real64.ofInt n.toInt).narrow.toNat
  | .real32, .real x => Bytes.toNat bytes = x.narrow.toNat
  | .text size, .str s => bytes = s.toUTF8.data.toList ++ List.replicate (size - s.utf8ByteSize) 0
  | .text size, .int _ => bytes = List.replicate size 0
  | _, _ => False

end Encoding

theorem Bytes.ofText_eq (s : String) : Bytes.ofText s = s.toUTF8.data.toList := by
  have same : (Bytes.ofText s).toByteArray = s.toUTF8 := String.utf8Encode_toList
  rw [← same, List.toList_data_toByteArray]

/-! ## Limits -/

theorem toNat_toUInt64 {n : Int64} (positive : 0 ≤ n.toInt) :
    (n.toUInt64.toNat : Int) = n.toInt := by
  rw [Int64.toNat_toUInt64_of_le (Int64.le_iff_toInt_le.mpr positive)]
  exact Int.toNat_of_nonneg positive

namespace Encoding

theorem unsignedMax_eq {width : Nat} (narrow : width < 8) :
    ((unsignedMax width).toNat : Int) = 256 ^ width - 1 := by
  interval_cases width <;> decide

/-- The comparisons in 64 bits find the integers that the bytes cannot hold. -/
theorem beyond_unsigned (width : Nat) (n : Int64) :
    (n < 0 ∨ unsignedMax width < n.toUInt64) ↔ ¬(0 ≤ n.toInt ∧ n.toInt < 256 ^ width) := by
  have sign : n < 0 ↔ n.toInt < 0 := Int64.lt_iff_toInt_lt
  rw [sign, UInt64.lt_iff_toNat_lt]
  rcases Int.lt_or_le n.toInt 0 with negative | positive
  · simp [negative]
  · have cast := toNat_toUInt64 positive
    rcases Nat.lt_or_ge width 8 with narrow | wide
    · have most := unsignedMax_eq narrow
      omega
    · have most : (unsignedMax width).toNat = 2 ^ 64 - 1 := by rw [unsignedMax, if_pos wide]; rfl
      have count : (256 : Int) ^ 8 ≤ 256 ^ width := pow_le_pow_right₀ (by decide) wide
      have upper := n.toInt_lt
      omega

theorem signedLimit_eq (width : Nat) : signedLimit width = 256 ^ width / 2 := by
  cases width with
  | zero => rfl
  | succ width =>
      have half : (256 : Int) ^ (width + 1) = 2 * 2 ^ (8 * width + 7) := by
        rw [← pow_succ', show (256 : Int) = 2 ^ 8 from rfl, ← pow_mul]
        rfl
      rw [signedLimit, Nat.one_shiftLeft, half]
      simp

theorem beyond_signed (width : Nat) (n : Int64) :
    (n.toInt < -signedLimit width ∨ signedLimit width - 1 < n.toInt) ↔
      ¬(-(256 ^ width / 2) ≤ n.toInt ∧ n.toInt < 256 ^ width / 2) := by
  rw [signedLimit_eq]
  omega

theorem holds_unsigned {width : Nat} {n : Int64} (positive : 0 ≤ n.toInt)
    (small : n.toInt < 256 ^ width) :
    (unsigned width).Holds (Bytes.littleEndian width n.toUInt64.toNat) (.int n) := by
  have cast := toNat_toUInt64 positive
  have fits : n.toUInt64.toNat < Bytes.valueCount width := by
    zify
    rw [cast]
    exact_mod_cast small
  rw [Holds, Bytes.toNat_littleEndian_of_lt fits, cast]

end Encoding

namespace BasicType

/-- A type encodes the values that its encoding takes, and no others. -/
theorem encode_takes (t : BasicType) (field : String) (value : Value) :
    (∃ bytes, t.encode field value = .ok bytes) ↔ t.encoding.Takes value := by
  unfold encode
  cases t.encoding with
  | unsigned width =>
      cases value with
      | int n =>
          simp only [Value.int?, Encoding.beyond_unsigned]
          by_cases inside : 0 ≤ n.toInt ∧ n.toInt < (256 ^ width : Int) <;>
            simp [Encoding.Takes, inside]
      | _ => simp [Encoding.Takes, Value.int?]
  | signed width =>
      cases value with
      | int n =>
          simp only [Value.int?, Encoding.beyond_signed]
          by_cases inside : -(256 ^ width / 2) ≤ n.toInt ∧ n.toInt < (256 ^ width / 2 : Int) <;>
            simp [Encoding.Takes, inside]
      | _ => simp [Encoding.Takes, Value.int?]
  | real32 => cases value <;> simp [Encoding.Takes, Value.real?]
  | text size =>
      cases value with
      | str s =>
          by_cases long : size < s.utf8ByteSize <;> simp [Encoding.Takes, Bytes.ofText_eq, long]
          omega
      | int n => by_cases zero : n = 0 <;> simp [Encoding.Takes, zero]
      | real x => simp [Encoding.Takes]

/-- The bytes have the length of the encoding and hold the value. -/
theorem encode_holds {t : BasicType} {field : String} {value : Value} {bytes : Bytes}
    (made : t.encode field value = .ok bytes) :
    bytes.length = t.encoding.byteLength ∧ t.encoding.Holds bytes value := by
  have real : ∀ x : Real64,
      Bytes.toNat (Bytes.littleEndian 4 x.narrow.toNat) = x.narrow.toNat :=
    fun x => Bytes.toNat_littleEndian_of_lt x.narrow.toNat_lt
  unfold encode at made
  generalize t.encoding = e at made ⊢
  cases e with
  | unsigned width =>
      cases value with
      | int n =>
          simp only [Value.int?, Encoding.beyond_unsigned] at made
          split at made
          · cases made
          · next inside =>
              cases made
              obtain ⟨positive, small⟩ := not_not.mp inside
              exact ⟨Bytes.length_littleEndian width _, Encoding.holds_unsigned positive small⟩
      | _ => cases made
  | signed width =>
      cases value with
      | int n =>
          simp only [Value.int?, Encoding.beyond_signed] at made
          split at made
          · cases made
          · next inside =>
              cases made
              obtain ⟨lower, upper⟩ := not_not.mp inside
              exact ⟨Bytes.length_ofInt width _,
                Bytes.toInt_ofInt (by exact_mod_cast lower) (by exact_mod_cast upper)⟩
      | _ => cases made
  | real32 =>
      cases value with
      | str s => cases made
      | _ =>
          cases made
          exact ⟨Bytes.length_littleEndian 4 _, real _⟩
  | text size =>
      cases value with
      | str s =>
          simp only [Bytes.ofText_eq] at made
          split at made
          · cases made
          · next short =>
              cases made
              simp at short
              simp [Encoding.byteLength, Encoding.Holds, short]
      | int n =>
          simp only at made
          split at made
          · cases made
            simp [Encoding.byteLength, Encoding.Holds]
          · cases made
      | real x => cases made

end BasicType

/-- A default value has bytes just if its encoding takes it. They are as many as the encoding says
and hold the value, and the hexadecimal text of the default value is read as the same bytes. -/
theorem SubObject.encodedDefault_exact (sub : SubObject) :
    ((∃ bytes, sub.encodedDefault = .ok bytes) ↔ sub.basicType.encoding.Takes sub.default) ∧
    ∀ bytes, sub.encodedDefault = .ok bytes →
      bytes.length = sub.basicType.encoding.byteLength ∧
      sub.basicType.encoding.Holds bytes sub.default ∧
      ∃ text, sub.hexBinaryDefault = .ok text ∧ Bytes.readHex text.toList = some bytes := by
  refine ⟨sub.basicType.encode_takes sub.symbol sub.default, ?_⟩
  intro bytes made
  obtain ⟨length, holds⟩ := BasicType.encode_holds made
  refine ⟨length, holds, Bytes.hexLower bytes, ?_, Bytes.readHex_hexLower bytes⟩
  simp [hexBinaryDefault, made, bind, Except.bind, pure, Except.pure]

/-- A limit of two bytes. -/
def limitSub (n : Int64) : SubObject :=
  { index := 0x2000, subindex := 0, access := Access.read,
    basicType := .plain "INT" 16 "INTEGER16" 3 "int16_t " (.signed 2), symbol := "limit",
    default := .int n, description := "Limit" }

/-- A name of at most five bytes. -/
def nameSub (s : String) : SubObject :=
  { index := 0x2001, subindex := 0, access := Access.read,
    basicType := .plain "STRING(5)" 40 "VISIBLESTRING" 9 "char *" (.text 5), symbol := "name",
    default := .str s, description := "Name" }

/-- The least integer of two bytes and the one above the largest, and two texts of five letters and
less: the letter `ï` takes two bytes. -/
theorem SubObject.encodedDefault_exact_limits :
    (∃ bytes text, (limitSub (-32768)).encodedDefault = .ok bytes ∧ bytes.length = 2 ∧
      Bytes.toInt bytes = -32768 ∧ (limitSub (-32768)).hexBinaryDefault = .ok text ∧
      Bytes.readHex text.toList = some bytes) ∧
    (¬∃ bytes, (limitSub 32768).encodedDefault = .ok bytes) ∧
    (∃ bytes, (nameSub "naïf").encodedDefault = .ok bytes ∧
      bytes = "naïf".toUTF8.data.toList ++ List.replicate (5 - "naïf".utf8ByteSize) 0) ∧
    ¬∃ bytes, (nameSub "naïve").encodedDefault = .ok bytes := by
  refine ⟨?_, ?_, ?_, ?_⟩
  · obtain ⟨accepts, each⟩ := encodedDefault_exact (limitSub (-32768))
    obtain ⟨bytes, made⟩ := accepts.mpr (by decide)
    obtain ⟨length, value, text, written, read⟩ := each bytes made
    exact ⟨bytes, text, made, length, value, written, read⟩
  · rw [(encodedDefault_exact _).1]
    decide
  · obtain ⟨accepts, each⟩ := encodedDefault_exact (nameSub "naïf")
    obtain ⟨bytes, made⟩ := accepts.mpr (by decide)
    exact ⟨bytes, made, (each bytes made).2.1⟩
  · rw [(encodedDefault_exact _).1]
    decide

end EcatDevice
