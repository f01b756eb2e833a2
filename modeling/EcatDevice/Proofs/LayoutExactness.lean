import EcatDevice.Proofs.SlotLayout

/-! # Layouts are packed exactly

A layout is packed just if every word of it has an integer within the range of its format. Its bytes
are then read back slot by slot, and the gaps are zero. Otherwise the first slot that cannot be
stored decides the failure, so nothing behind it matters; and nothing behind a slot matters for the
bytes in front of it either.
-/

namespace EcatDevice.Eeprom

/-- The integers that a format can store. -/
def Format.range : Format → Set Int
  | .unsigned8 => Set.Icc 0 255
  | .unsigned16 => Set.Icc 0 65535
  | .integer16 => Set.Icc (-32768) 32767
  | .unsigned32 => Set.Icc 0 4294967295
  | .integer32 => Set.Icc (-2147483648) 2147483647

theorem Format.fits_iff (format : Format) (n : Int) : format.fits n = true ↔ n ∈ format.range := by
  have one : Bytes.valueCount 1 = 256 := rfl
  have two : Bytes.valueCount 2 = 65536 := rfl
  have four : Bytes.valueCount 4 = 4294967296 := rfl
  cases format <;> simp [fits, isSigned, width, range, one, two, four] <;> omega

instance (format : Format) (n : Int) : Decidable (n ∈ format.range) :=
  decidable_of_iff _ (format.fits_iff n)

namespace Slot

/-- What the settings have for a slot can be stored in it. -/
def Storable (s : Settings) (lead : String) : Slot → Prop
  | .gap _ => True
  | .word key fallback format =>
      s.get? (lead ++ key) = none ∧ fallback.toInt ∈ format.range ∨
        ∃ n, s.get? (lead ++ key) = some (.int n) ∧ n.toInt ∈ format.range

/-- Why a slot is refused: its key has no integer, or one that its format cannot store. -/
inductive Refused (s : Settings) (lead : String) : Slot → Error → Prop where
  | mismatch {key : String} {fallback : Int64} {format : Format} {value : Value}
      (found : s.get? (lead ++ key) = some value) (other : value.int? = none) :
      Refused s lead (.word key fallback format)
        (.typeMismatch (lead ++ key) "integer" value.display)
  | overflow {key : String} {fallback n : Int64} {format : Format}
      (given : s.Gives (lead ++ key) fallback n) (outside : n.toInt ∉ format.range) :
      Refused s lead (.word key fallback format)
        (.layoutOverflow (lead ++ key) (Text.decimal n.toInt))

/-- A row of bytes starts with what the settings have for a slot. -/
def Reads (s : Settings) (lead : String) (bytes : Bytes) : Slot → Prop
  | .gap count => bytes.take count = List.replicate count 0
  | .word key fallback format =>
      ∃ n, s.Gives (lead ++ key) fallback n ∧ format.read bytes = n.toInt

section
variable {s : Settings} {lead : String}

theorem storable_word {key : String} {fallback : Int64} {format : Format} :
    (Slot.word key fallback format).Storable s lead ↔
      ∃ n, s.Gives (lead ++ key) fallback n ∧ format.fits n.toInt = true := by
  simp only [Storable, Settings.Gives, Format.fits_iff]
  constructor
  · rintro (⟨missing, inside⟩ | ⟨n, found, inside⟩)
    · exact ⟨fallback, .inr ⟨missing, rfl⟩, inside⟩
    · exact ⟨n, .inl found, inside⟩
  · rintro ⟨n, found | ⟨missing, rfl⟩, inside⟩
    · exact .inr ⟨n, found, inside⟩
    · exact .inl ⟨missing, inside⟩

theorem pack_ok_iff {slot : Slot} :
    (∃ bytes, slot.pack s lead = .ok bytes) ↔ slot.Storable s lead := by
  cases slot with
  | gap count => simp [pack, Storable]
  | word key fallback format =>
      rw [storable_word]
      constructor
      · rintro ⟨bytes, made⟩
        obtain ⟨n, given, fits, -⟩ := pack_word made
        exact ⟨n, given, fits⟩
      · rintro ⟨n, given, fits⟩
        use Bytes.ofInt format.width n.toInt
        simp [pack, Settings.intOr_ok.mpr given, bind, Except.bind, fits]

theorem refused_of_error {slot : Slot} {e : Error} (failed : slot.pack s lead = .error e) :
    slot.Refused s lead e := by
  cases slot with
  | gap count => cases failed
  | word key fallback format =>
      cases given : s.intOr (lead ++ key) fallback with
      | error other =>
          simp only [pack, given, bind, Except.bind, Except.error.injEq] at failed
          obtain ⟨value, found, noInteger, rfl⟩ := Settings.intOr_error.mp (failed ▸ given)
          exact .mismatch found noInteger
      | ok n =>
          simp only [pack, given, bind, Except.bind] at failed
          split at failed
          · cases failed
          · next outside =>
              cases failed
              exact .overflow (Settings.intOr_ok.mp given) (by rwa [← Format.fits_iff])

theorem pack_error_iff {slot : Slot} {e : Error} :
    slot.pack s lead = .error e ↔ slot.Refused s lead e := by
  constructor
  · exact refused_of_error
  · intro refused
    cases refused with
    | mismatch found other =>
        simp [pack, Settings.intOr_error.mpr ⟨_, found, other, rfl⟩, bind, Except.bind]
    | overflow given outside =>
        rw [← Format.fits_iff] at outside
        simp [pack, Settings.intOr_ok.mpr given, bind, Except.bind, outside, Error.overflow]

theorem pack_reads {slot : Slot} {bytes : Bytes} (made : slot.pack s lead = .ok bytes)
    (rest : Bytes) : slot.Reads s lead (bytes ++ rest) := by
  cases slot with
  | gap count =>
      cases made
      exact List.take_left' List.length_replicate
  | word key fallback format =>
      obtain ⟨n, given, fits, rfl⟩ := pack_word made
      exact ⟨n, given, Format.read_ofInt fits rest⟩

end

end Slot

theorem packLayout_reads {s : Settings} {lead : String} {before after : List Slot} {slot : Slot}
    {bytes : Bytes} (made : packLayout s lead (before ++ slot :: after) = .ok bytes) :
    slot.Reads s lead (bytes.drop (totalOf Slot.size before)) := by
  obtain ⟨front, back, packed, behind, rfl⟩ := joined_append.mp made
  obtain ⟨here, others, written, -, rfl⟩ := joined_cons.mp behind
  rw [← length_packLayout packed, List.drop_left]
  exact Slot.pack_reads written others

/-- Which layouts are packed, what their bytes read back to, how the others fail, and that a layout
is packed from the front. -/
theorem packLayout_exact (s : Settings) (lead : String) (layout : List Slot) :
    ((∃ bytes, packLayout s lead layout = .ok bytes) ↔ ∀ slot ∈ layout, slot.Storable s lead) ∧
    (∀ bytes, packLayout s lead layout = .ok bytes →
      bytes.length = totalOf Slot.size layout ∧
      (∀ before slot after, layout = before ++ slot :: after →
        slot.Reads s lead (bytes.drop (totalOf Slot.size before))) ∧
      ∀ front back, layout = front ++ back →
        packLayout s lead front = .ok (bytes.take (totalOf Slot.size front))) ∧
    ∀ e, packLayout s lead layout = .error e ↔
      ∃ before slot after, layout = before ++ slot :: after ∧
        (∀ earlier ∈ before, earlier.Storable s lead) ∧ slot.Refused s lead e := by
  refine ⟨?_, ?_, ?_⟩
  · simp only [packLayout_eq, joined_ok_iff, Slot.pack_ok_iff]
  · intro bytes made
    refine ⟨length_packLayout made, ?_, ?_⟩
    · rintro before slot after rfl
      exact packLayout_reads made
    · rintro front back rfl
      obtain ⟨first, second, packed, -, rfl⟩ := joined_append.mp made
      rw [← length_packLayout packed, List.take_left]
      exact packed
  · intro e
    simp only [packLayout_eq, joined_error_iff, Slot.pack_ok_iff, Slot.pack_error_iff]

/-- A word, a gap and a signed word. -/
def sampleSlots : List Slot :=
  [.word "cycle" 7 .unsigned16, .gap 1, .word "shift" 0 .integer16]

theorem packLayout_exact_sample :
    (∃ bytes, packLayout (.ofList [("dc0.shift", .int (-2))]) "dc0." sampleSlots = .ok bytes ∧
      bytes.length = 5 ∧ Format.integer16.read (bytes.drop 3) = -2) ∧
    packLayout (.ofList [("dc0.cycle", .int 65536), ("dc0.shift", .str "late")]) "dc0."
      sampleSlots = .error (.layoutOverflow "dc0.cycle" "65536") := by
  constructor
  · have shift : (Settings.ofList [("dc0.shift", .int (-2))]).get? "dc0.shift" =
        some (.int (-2)) := by decide +kernel
    have cycle : (Settings.ofList [("dc0.shift", .int (-2))]).get? "dc0.cycle" = none := by
      decide +kernel
    obtain ⟨packs, reads, -⟩ :=
      packLayout_exact (.ofList [("dc0.shift", .int (-2))]) "dc0." sampleSlots
    obtain ⟨bytes, made⟩ := packs.mpr (by
      simp only [sampleSlots, List.forall_mem_cons, List.not_mem_nil, false_implies, implies_true,
        and_true]
      exact ⟨.inl ⟨cycle, by decide⟩, trivial, .inr ⟨-2, shift, by decide⟩⟩)
    obtain ⟨length, each, -⟩ := reads bytes made
    obtain ⟨n, given | ⟨missing, -⟩, value⟩ :=
      each [.word "cycle" 7 .unsigned16, .gap 1] (.word "shift" 0 .integer16) [] rfl
    · have same : some (Value.int n) = some (.int (-2)) := given.symm.trans shift
      cases same
      exact ⟨bytes, made, length, value⟩
    · cases missing.symm.trans shift
  · have found : (Settings.ofList [("dc0.cycle", .int 65536), ("dc0.shift", .str "late")]).get?
        "dc0.cycle" = some (.int 65536) := by decide +kernel
    apply ((packLayout_exact _ "dc0." sampleSlots).2.2 _).mpr
    refine ⟨[], .word "cycle" 7 .unsigned16, [.gap 1, .word "shift" 0 .integer16], rfl, by simp, ?_⟩
    exact .overflow (n := 65536) (.inl found) (by decide)

end EcatDevice.Eeprom
