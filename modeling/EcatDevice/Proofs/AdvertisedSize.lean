import EcatDevice.Proofs.ImageRepeats
import EcatDevice.Proofs.LayoutExactness
import EcatDevice.Proofs.PublishedSettings
import EcatDevice.Proofs.SettingsInflation

/-! # The advertised size

The derivation states the size of the EEPROM in units of 128 bytes, less one, and the image is
filled up to the size itself. So the word that an image holds is the number of whole units behind
the first one. The word of every size that an image can have fits its slot: it never decides whether
an image can be built.
-/

namespace EcatDevice

namespace Settings

/-! ## Arithmetic -/

/-- The integer as one of 64 bits, unless it overflows. -/
def unlessOverflow (n : Int) : Option Int64 :=
  if Int64.minValue.toInt ≤ n ∧ n ≤ Int64.maxValue.toInt then some (Int64.ofInt n) else none

/-- The advertised size computed with 64-bit integers: the product saturates, and the quotient and
the difference are checked. -/
def checkedSize (bytes : Int64) : Option Int64 := do
  let bits := Int64.ofIntClamp (8 * bytes.toInt)
  let units ← unlessOverflow (bits.toInt.tdiv 1024)
  unlessOverflow (units.toInt - 1)

theorem unlessOverflow_of_bounds {n : Int} (lower : -2 ^ 63 ≤ n) (upper : n < 2 ^ 63) :
    unlessOverflow n = some (Int64.ofInt n) := by
  refine if_pos ?_
  rw [Int64.toInt_minValue, Int64.toInt_maxValue]
  omega

theorem tdiv_bounds {n : Int} (lower : -2 ^ 63 ≤ n) (upper : n < 2 ^ 63) :
    -2 ^ 53 ≤ n.tdiv 1024 ∧ n.tdiv 1024 < 2 ^ 53 := by
  have sign : Int.sign 1024 = 1 := rfl
  rw [Int.tdiv_eq_ediv, sign]
  split <;> omega

theorem toInt_ofIntClamp_eq (n : Int) : (Int64.ofIntClamp n).toInt =
    max Int64.minValue.toInt (min n Int64.maxValue.toInt) := by
  have least := Int64.toInt_minValue
  have most := Int64.toInt_maxValue
  unfold Int64.ofIntClamp
  split
  · split
    · rw [Int64.toInt_ofIntLE]
      omega
    · omega
  · omega

/-- No step of the computation overflows. -/
theorem checkedSize_eq (bytes : Int64) : checkedSize bytes = some (advertisedSize bytes) := by
  have lower := (Int64.ofIntClamp (8 * bytes.toInt)).le_toInt
  have upper := (Int64.ofIntClamp (8 * bytes.toInt)).toInt_lt
  simp only [checkedSize, advertisedSize, ← toInt_ofIntClamp_eq]
  generalize (Int64.ofIntClamp (8 * bytes.toInt)).toInt = bits at lower upper ⊢
  obtain ⟨least, most⟩ := tdiv_bounds lower upper
  have units : (Int64.ofInt (bits.tdiv 1024)).toInt = bits.tdiv 1024 :=
    Int64.toInt_ofInt_of_le (by omega) (by omega)
  have quotient := unlessOverflow_of_bounds (n := bits.tdiv 1024) (by omega) (by omega)
  have difference := unlessOverflow_of_bounds (n := bits.tdiv 1024 - 1) (by omega) (by omega)
  simp only [quotient, Option.bind_eq_bind, Option.bind_some, units, difference]

/-- Up to the size at which the number of bits saturates, the size is divided by 128. -/
theorem toInt_advertisedSize {n : Int64} (lower : 0 ≤ n.toInt)
    (upper : n.toInt < 2 ^ 60) : (advertisedSize n).toInt = n.toInt / 128 - 1 := by
  have bits : max Int64.minValue.toInt (min (8 * n.toInt) Int64.maxValue.toInt) =
      8 * n.toInt := by
    rw [Int64.toInt_minValue, Int64.toInt_maxValue]
    omega
  simp only [advertisedSize, bits]
  rw [Int.tdiv_eq_ediv_of_nonneg (by omega), Int64.toInt_ofInt_of_le (by omega) (by omega)]
  omega

/-! ## The derivation -/

/-- The derivation keeps the size of the EEPROM and adds the word for it. -/
theorem derive_size {d : Dictionary} {s t : Settings} (absent : s.get? "sii.size" = none)
    (made : derive d s = (.ok (), t)) :
    ∃ n, s.Gives "ESC_EEPROM_SIZE" 0x800 n ∧ t.get? "ESC_EEPROM_SIZE" = some (.int n) ∧
      t.get? "sii.size" = some (.int (advertisedSize n)) := by
  -- the word is proposed right after the fallbacks, and the stages behind it keep what they find
  obtain ⟨filled, first, run⟩ := derive_ok made
  have full := (fallbackStage_fills first (.refl filled)).2.1
  rw [laterStages, List.foldlM_cons] at run
  obtain ⟨sized, second, run⟩ := Except.bind_eq_ok run
  have more := sizeStage_stable.inflates second
  have others := fun stage member => laterStages_stable d stage (List.mem_cons_of_mem _ member)
  have later := (run_stable others (full.grown more) run).1
  obtain ⟨n, given, second⟩ := Except.bind_eq_ok second
  cases second
  have size : filled.get? "ESC_EEPROM_SIZE" = some (.int n) := int_ok.mp given
  have free : filled.get? "sii.size" = none := by
    have unlisted : "sii.size" ∉ fallbacks.map Prod.fst := by
      simp [fallbacks, integerFallbacks, textFallbacks]
    rw [fallbackStage_changes s filled first _ unlisted, absent]
  have word : (filled.propose [("sii.size", .int (advertisedSize n))]).get? "sii.size" =
      some (.int (advertisedSize n)) := by
    rw [get?_propose, free]
    rfl
  refine ⟨n, ?_, ?_, ?_⟩
  · rw [← Except.ok.inj first, get?_propose] at size
    have fallback : fallbacks.lookup "ESC_EEPROM_SIZE" = some (.int 0x800) := rfl
    rw [fallback] at size
    rcases Option.or_eq_some_iff.mp size with own | ⟨missing, same⟩
    · exact .inl own
    · cases same
      exact .inr ⟨missing, rfl⟩
  · rw [(more.trans later).get? (by decide) (by simp [size]), size]
  · rw [later.get? (by decide) (by simp [word]), word]

end Settings

namespace Eeprom

/-! ## The word in the image -/

/-- The word of the size that an image holds. -/
def sizeWord (bytes : Bytes) : Nat :=
  Bytes.toNat ((bytes.drop 0x7c).take 2)

theorem fillImage_le {s : Settings} {content bytes : Bytes}
    (made : fillImage s content = .ok bytes) : bytes.length ≤ maxSize := by
  obtain ⟨n, -, made⟩ := Except.bind_eq_ok made
  split at made
  · cases made
  · split at made
    · cases made
    · cases made
      rw [List.length_append, List.length_replicate]
      omega

section
variable {s : Settings} {image : Image} (made : build s = .ok image)
include made

theorem build_sizeWord {word : Int64} (found : s.get? "sii.size" = some (.int word)) :
    (sizeWord image.bytes : Int) = word.toInt := by
  obtain ⟨parts, rfl⟩ := build_ok_iff.mp made
  obtain ⟨-, count, bytes⟩ := parts.bytes_split
  have held := packLayout_holds parts.configPacked (parts.content ++ List.replicate count 0xff)
  obtain ⟨n, given, read⟩ := held (configSlots.take 22) "sii.size" 0x000f .unsigned16
    [.word "sii.version" 1 .unsigned16] rfl List.not_mem_nil
  have same : n = word := by
    have other : "sii.checksum" ≠ "" ++ "sii.size" := by decide
    rcases given with own | ⟨missing, -⟩
    · rw [Settings.get?_insert, if_neg other] at own
      cases own.symm.trans found
      rfl
    · rw [Settings.get?_insert, if_neg other] at missing
      cases missing.symm.trans found
  have place : totalOf Slot.size (configSlots.take 22) = 0x7c := rfl
  rw [place, ← List.append_assoc, ← bytes] at read
  rw [← same, ← read]
  rfl

theorem build_length {n : Int64} (found : s.get? "ESC_EEPROM_SIZE" = some (.int n)) :
    (image.bytes.length : Int) = n.toInt ∧ 128 ≤ image.bytes.length ∧
      image.bytes.length ≤ maxSize := by
  obtain ⟨parts, rfl⟩ := build_ok_iff.mp made
  obtain ⟨-, count, bytes⟩ := parts.bytes_split
  have config := parts.lengths.2
  have enough : 128 ≤ parts.bytes.length := by
    rw [bytes]
    simp only [List.length_append]
    omega
  obtain ⟨size, given, length, -⟩ := fillImage_ok parts.filled
  have own := given.congr (parts.agree _ (by decide))
  rcases own with same | ⟨missing, -⟩
  · cases same.symm.trans found
    exact ⟨length, enough, fillImage_le parts.filled⟩
  · cases missing.symm.trans found

end

/-! ## Images with other words -/

/-- The slot of the word. -/
def sizeSlot : Slot :=
  .word "sii.size" 0x000f .unsigned16

theorem sizeSlot_only : ∀ slot ∈ configSlots, slot.key? = some "sii.size" → slot = sizeSlot := by
  decide

theorem fillImage_failAlike {s other : Settings}
    (same : other.get? "ESC_EEPROM_SIZE" = s.get? "ESC_EEPROM_SIZE") {content others : Bytes}
    (lengths : others.length = content.length) :
    FailAlike (fillImage other others) (fillImage s content) := by
  simp only [fillImage, Settings.intOr_congr same, lengths]
  apply FailAlike.bind_same
  intro size _
  split
  · exact .refl _
  · split
    · exact .refl _
    · exact failAlike_ok _ _

theorem SameContent.failAlike {s other : Settings} (same : SameContent s other)
    (configs : ∀ checksum, FailAlike
      (packLayout (other.insert "sii.checksum" checksum) "" configSlots)
      (packLayout (s.insert "sii.checksum" checksum) "" configSlots)) :
    FailAlike (build other) (build s) := by
  rw [build_eq, build_eq, same.head_eq]
  apply FailAlike.bind_same
  intro head _
  apply (configs _).bind
  intro config others first second
  have lengths : config.length = others.length :=
    (length_packLayout first).trans (length_packLayout second).symm
  rw [same.names_eq]
  apply FailAlike.bind_same
  intro found collects
  rw [same.allCategories_eq collects]
  apply FailAlike.bind_same
  intro content _
  refine (fillImage_failAlike ?_ ?_).bind fun _ _ _ _ => failAlike_ok _ _
  · exact same.get?_merge _ (.inl switch_inputs.2)
  · simp [lengths]

theorem sizeSlot_packs {s : Settings} {word : Int64}
    (found : s.get? "sii.size" = some (.int word)) (fits : word.toInt ∈ Set.Icc 0 0xffff)
    (checksum : Value) :
    ∃ bytes, sizeSlot.pack (s.insert "sii.checksum" checksum) "" = .ok bytes := by
  apply Slot.pack_ok_iff.mpr
  refine .inr ⟨word, ?_, fits⟩
  rw [Settings.get?_insert, if_neg (by decide)]
  exact found

/-- As long as the word fits, it does not decide whether an image can be built. -/
theorem build_insert_failAlike {s : Settings} {word other : Int64}
    (found : s.get? "sii.size" = some (.int word)) (fits : word.toInt ∈ Set.Icc 0 0xffff)
    (fitsOther : other.toInt ∈ Set.Icc 0 0xffff) :
    FailAlike (build (s.insert "sii.size" (.int other))) (build s) := by
  apply SameContent.failAlike
  · intro key input
    rw [Settings.get?_insert, if_neg]
    rintro rfl
    exact input List.mem_cons_self
  · intro checksum
    apply joined_failAlike
    intro slot member
    by_cases isSize : slot.key? = some "sii.size"
    · obtain ⟨bytes, packed⟩ := sizeSlot_packs found fits checksum
      obtain ⟨others, packedOther⟩ := sizeSlot_packs
        (s := s.insert "sii.size" (.int other)) (by simp [Settings.get?_insert]) fitsOther checksum
      rw [sizeSlot_only slot member isSize, packed, packedOther]
      exact failAlike_ok others bytes
    · cases slot with
      | gap count => exact .refl _
      | word key fallback format =>
          have apart : "sii.size" ≠ "" ++ key := by
            rw [String.empty_append]
            rintro rfl
            exact isSize rfl
          have same : ((s.insert "sii.size" (.int other)).insert "sii.checksum" checksum).get?
              ("" ++ key) = (s.insert "sii.checksum" checksum).get? ("" ++ key) := by
            simp only [Settings.get?_insert, if_neg apart]
          simp only [Slot.pack, Settings.intOr_congr same]
          exact .refl _

/-! ## Derived settings -/

/-- An image of derived settings advertises its size in whole units. A size that an image can have
gives a word that does not decide whether one is built, and no size overflows on the way. -/
theorem derived_size_advertised (d : Dictionary) {s : Settings}
    (absent : s.get? "sii.size" = none) :
    (∀ t image, Settings.derive d s = (.ok (), t) → build t = .ok image →
      (sizeWord image.bytes + 1) * 128 ≤ image.bytes.length ∧
      image.bytes.length < (sizeWord image.bytes + 2) * 128 ∧
      (128 ∣ image.bytes.length → image.bytes.length = (sizeWord image.bytes + 1) * 128)) ∧
    (∀ t n, Settings.derive d s = (.ok (), t) → s.Gives "ESC_EEPROM_SIZE" 0x800 n →
      t.get? "sii.size" = some (.int (Settings.advertisedSize n)) ∧
      (128 ≤ n.toInt → n.toInt ≤ 0x800000 → ∀ other : Int64, other.toInt ∈ Set.Icc 0 0xffff →
        ∀ e, build t = .error e ↔ build (t.insert "sii.size" (.int other)) = .error e)) ∧
    ∀ n : Int64, Settings.checkedSize n = some (Settings.advertisedSize n) := by
  refine ⟨?_, ?_, Settings.checkedSize_eq⟩
  · intro t image derived made
    obtain ⟨n, -, size, word⟩ := Settings.derive_size absent derived
    obtain ⟨length, enough, most⟩ := build_length made size
    have held := build_sizeWord made word
    unfold maxSize at most
    rw [Settings.toInt_advertisedSize (by omega) (by omega)] at held
    omega
  · intro t n derived given
    obtain ⟨size, own, -, word⟩ := Settings.derive_size absent derived
    have same : size = n :=
      Except.ok.inj ((Settings.intOr_ok.mpr own).symm.trans (Settings.intOr_ok.mpr given))
    subst same
    refine ⟨word, ?_⟩
    intro least most other fitsOther e
    have fits : (Settings.advertisedSize size).toInt ∈ Set.Icc 0 0xffff := by
      rw [Set.mem_Icc, Settings.toInt_advertisedSize (by omega) (by omega)]
      omega
    exact (build_insert_failAlike word fits fitsOther e).symm

/-- A size that is no multiple of a unit. -/
def unevenSettings : Settings :=
  .ofList [("ESC_EEPROM_SIZE", .int 400)]

theorem derived_size_advertised_uneven :
    ∃ t image, Settings.derive Dictionary.empty unevenSettings = (.ok (), t) ∧
      build t = .ok image ∧ image.bytes.length = 400 ∧ sizeWord image.bytes = 2 ∧
      (sizeWord image.bytes + 1) * 128 ≤ 400 ∧ 400 < (sizeWord image.bytes + 2) * 128 ∧
      ∃ other, build (t.insert "sii.size" (.int 0xffff)) = .ok other := by
  have absent : unevenSettings.get? "sii.size" = none := by decide +kernel
  have size : unevenSettings.get? "ESC_EEPROM_SIZE" = some (.int 400) := by decide +kernel
  have shown : (Settings.derived Dictionary.empty unevenSettings).toOption.bind (fun t =>
      (build t).toOption.map fun image => (image.bytes.length, sizeWord image.bytes)) =
      some (400, 2) := by decide +kernel
  obtain ⟨t, run, shown⟩ := Option.bind_eq_some_iff.mp shown
  have derived : Settings.derive Dictionary.empty unevenSettings = (.ok (), t) :=
    Settings.runStages_ok.mpr (Settings.derived_ok.mp (Except.eq_ok_of_toOption run))
  obtain ⟨image, made, shown⟩ := Except.exists_ok_of_shown shown
  obtain ⟨length, word⟩ := Prod.mk.inj shown
  obtain ⟨advertised, decides, -⟩ := derived_size_advertised Dictionary.empty absent
  obtain ⟨lower, upper, -⟩ := advertised t image derived made
  rw [length] at lower upper
  have alike := (decides t 400 derived (.inl size)).2 (by decide) (by decide) 0xffff (by decide)
  exact ⟨t, image, derived, made, length, word, lower, upper,
    (FailAlike.ok_iff alike).mp ⟨image, made⟩⟩

end Eeprom

end EcatDevice
