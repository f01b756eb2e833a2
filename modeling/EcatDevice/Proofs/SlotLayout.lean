import EcatDevice.Eeprom.Layout
import EcatDevice.Proofs.ByteNumbers
import EcatDevice.Proofs.Checked
import EcatDevice.Proofs.SettingsLookup

/-! # Layouts read back

A layout that is packed has the length of its slots, and each of its words, read at its place, is
the integer that the settings gave for it.
-/

namespace EcatDevice.Eeprom

/-- The integer at the head of a row of bytes. -/
def Format.read (format : Format) (bytes : Bytes) : Int :=
  if format.isSigned then Bytes.toInt (bytes.take format.width)
  else Bytes.toNat (bytes.take format.width)

/-- Every word of a layout but those of the keys in `skip`, read at its place, is the integer that
the settings give. -/
def Holds (s : Settings) (lead : String) (layout : List Slot) (skip : List String)
    (bytes : Bytes) : Prop :=
  ∀ before key fallback format after, layout = before ++ .word key fallback format :: after →
    key ∉ skip → ∃ n, s.Gives (lead ++ key) fallback n ∧
      format.read (bytes.drop (totalOf Slot.size before)) = n.toInt

theorem Format.read_ofInt {format : Format} {n : Int} (fits : format.fits n = true)
    (rest : Bytes) : format.read (Bytes.ofInt format.width n ++ rest) = n := by
  have word : (Bytes.ofInt format.width n ++ rest).take format.width =
      Bytes.ofInt format.width n :=
    List.take_left' (Bytes.length_ofInt format.width n)
  unfold read
  rw [word]
  dsimp only [Format.fits] at fits
  split at fits
  · next signed =>
      rw [Bool.and_eq_true, decide_eq_true_iff, decide_eq_true_iff] at fits
      rw [if_pos signed, Bytes.toInt_ofInt fits.1 fits.2]
  · next unsigned =>
      rw [Bool.and_eq_true, decide_eq_true_iff, decide_eq_true_iff] at fits
      rw [if_neg unsigned, Bytes.toNat_ofInt_of_lt fits.1 fits.2]

theorem Slot.pack_word {s : Settings} {lead key : String} {fallback : Int64} {format : Format}
    {bytes : Bytes} (made : (Slot.word key fallback format).pack s lead = .ok bytes) :
    ∃ n, s.Gives (lead ++ key) fallback n ∧ format.fits n.toInt = true ∧
      bytes = Bytes.ofInt format.width n.toInt := by
  unfold Slot.pack at made
  obtain ⟨n, given, made⟩ := Except.bind_eq_ok made
  split at made
  · next fits =>
      cases made
      exact ⟨n, Settings.intOr_ok.mp given, fits, rfl⟩
  · cases made

theorem Slot.length_pack {s : Settings} {lead : String} (slot : Slot) (bytes : Bytes)
    (made : slot.pack s lead = .ok bytes) : bytes.length = slot.size := by
  cases slot with
  | gap count =>
      cases made
      exact List.length_replicate
  | word key fallback format =>
      obtain ⟨n, _, _, rfl⟩ := Slot.pack_word made
      exact Bytes.length_ofInt _ _

section
variable {s : Settings} {lead : String} {layout : List Slot} {bytes : Bytes}

theorem packLayout_eq (s : Settings) (lead : String) (layout : List Slot) :
    packLayout s lead layout = joined (Slot.pack s lead) layout :=
  rfl

theorem length_packLayout (made : packLayout s lead layout = .ok bytes) :
    bytes.length = totalOf Slot.size layout :=
  length_joined Slot.length_pack made

/-- A packed layout is read back, whatever lies behind it. -/
theorem packLayout_holds (made : packLayout s lead layout = .ok bytes) (rest : Bytes) :
    Holds s lead layout [] (bytes ++ rest) := by
  rintro before key fallback format after rfl -
  obtain ⟨front, back, packed, behind, rfl⟩ := joined_append.mp made
  obtain ⟨word, others, here, -, rfl⟩ := joined_cons.mp behind
  obtain ⟨n, given, fits, rfl⟩ := Slot.pack_word here
  refine ⟨n, given, ?_⟩
  rw [← length_packLayout packed, List.append_assoc, List.drop_left, List.append_assoc]
  exact Format.read_ofInt fits _

/-- Only the keys of a layout count. -/
theorem packLayout_congr {other : Settings}
    (same : ∀ key fallback format, .word key fallback format ∈ layout →
      other.get? (lead ++ key) = s.get? (lead ++ key)) :
    packLayout other lead layout = packLayout s lead layout := by
  refine joined_congr ?_
  intro slot member
  cases slot with
  | gap count => rfl
  | word key fallback format =>
      simp only [Slot.pack, Settings.intOr_congr (same key fallback format member)]

end

end EcatDevice.Eeprom
