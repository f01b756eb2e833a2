import EcatDevice.Proofs.CategoryContent
import Mathlib.Data.List.Forall2

/-! # Trimmed modes

The modes of the memory management units lose their unset ones at the end. What is written has whole
words, at least one, and all modes can be restored from it by filling it up again; nothing shorter
of that kind would do.
-/

namespace EcatDevice.Eeprom

/-! ## Modes of the settings -/

/-- Modes with unset ones behind them, eight in all. -/
def fillModes (data : Bytes) : Bytes :=
  data ++ List.replicate (8 - data.length) 0xff

/-- The settings give a unit this mode; an unset one is `0xFF`. -/
def HasMode (s : Settings) (unit : Nat) (mode : UInt8) : Prop :=
  ∃ n, s.Gives (unitLead "fmmu" unit ++ "mode") 0xff n ∧ (mode.toNat : Int) = n.toInt

/-- The settings give a unit a mode that is no integer, or not one of a byte. -/
def HasBadMode (s : Settings) (unit : Nat) : Prop :=
  ∃ value, s.get? (unitLead "fmmu" unit ++ "mode") = some value ∧
    ∀ n, value = .int n → n.toInt ∉ Set.Icc 0 255

/-- Filled up again, the data are the modes of all eight units. -/
def Restores (s : Settings) (data : Bytes) : Prop :=
  List.Forall₂ (HasMode s) (List.range 8) (fillModes data)

theorem fmmuMode_ok_iff {s : Settings} {unit : Nat} {mode : UInt8} :
    fmmuMode s unit = .ok mode ↔ HasMode s unit mode := by
  constructor
  · exact fmmuMode_ok
  · rintro ⟨n, given, value⟩
    have small := mode.toNat_lt
    have inside : 0 ≤ n.toInt ∧ n.toInt < 256 := by omega
    have same : UInt8.ofNat n.toInt.toNat = mode := by
      rw [← value, Int.toNat_natCast, UInt8.ofNat_toNat]
    simp only [fmmuMode, Settings.intOr_ok.mpr given, bind, Except.bind, if_pos inside, same]

theorem fmmuMode_error_iff {s : Settings} {unit : Nat} :
    (∃ e, fmmuMode s unit = .error e) ↔ HasBadMode s unit := by
  simp only [fmmuMode, Settings.intOr, Settings.int, Settings.contains_eq, HasBadMode]
  cases s.get? (unitLead "fmmu" unit ++ "mode") with
  | none => simp [bind, Except.bind]
  | some value =>
      cases value with
      | int n =>
          by_cases inside : 0 ≤ n.toInt ∧ n.toInt < 256
          · simp [bind, Except.bind, inside]
            omega
          · simp [bind, Except.bind, inside]
            omega
      | real x => simp [bind, Except.bind]
      | str text => simp [bind, Except.bind]

theorem modes_unique {s : Settings} {modes others : Bytes}
    (first : List.Forall₂ (HasMode s) (List.range 8) modes)
    (second : List.Forall₂ (HasMode s) (List.range 8) others) : modes = others := by
  refine List.right_unique_forall₂' ?_ first second
  intro unit mode other here there
  exact Except.ok.inj ((fmmuMode_ok_iff.mpr here).symm.trans (fmmuMode_ok_iff.mpr there))

/-! ## Trimming -/

theorem usedModes_length_le (modes : Bytes) : (usedModes modes).length ≤ modes.length :=
  (List.rdropWhile_prefix _ modes).length_le

theorem usedModes_append_unset (modes : Bytes) (count : Nat) :
    usedModes (modes ++ List.replicate count 0xff) = usedModes modes := by
  induction count with
  | zero => simp
  | succ count ih =>
      rw [List.replicate_succ', ← List.append_assoc, usedModes, List.rdropWhile_concat_pos]
      · exact ih
      · rfl

theorem trimModes_length {modes : Bytes} (eight : modes.length = 8) :
    2 ≤ (trimModes modes).length ∧ (trimModes modes).length ≤ 8 := by
  obtain ⟨count, trimmed, counts⟩ := trimModes_eq modes
  have used := usedModes_length_le modes
  rw [trimmed, List.length_append, List.length_replicate]
  omega

/-- Nothing is lost by trimming. -/
theorem fillModes_trimModes {modes : Bytes} (eight : modes.length = 8) :
    fillModes (trimModes modes) = modes := by
  obtain ⟨-, few⟩ := trimModes_length eight
  obtain ⟨count, trimmed, -⟩ := trimModes_eq modes
  rw [trimmed, List.length_append, List.length_replicate] at few
  rw [trimmed, fillModes, List.append_assoc, List.replicate_append_replicate, List.length_append,
    List.length_replicate]
  conv_rhs => rw [← usedModes_append modes]
  congr 2
  omega

/-- Data of whole words from which the modes can be restored are as long as the trimmed modes. -/
theorem trimModes_length_le {modes data : Bytes} (nonempty : data ≠ [])
    (even : data.length % 2 = 0) (filled : fillModes data = modes) :
    (trimModes modes).length ≤ data.length := by
  have used : (usedModes modes).length ≤ data.length := by
    rw [← filled, fillModes, usedModes_append_unset]
    exact usedModes_length_le data
  have some := List.length_pos_of_ne_nil nonempty
  obtain ⟨count, trimmed, counts⟩ := trimModes_eq modes
  rw [trimmed, List.length_append, List.length_replicate]
  omega

/-! ## The category -/

theorem fmmuCategory_eq (s : Settings) :
    fmmuCategory s = do
      let modes ← (List.range 8).mapM (fmmuMode s)
      return header 40 ((trimModes modes).length / 2) ++ trimModes modes := by
  apply Except.bind_congr_ok
  intro modes each
  have eight : modes.length = 8 := (mapM_forall₂ each).length_eq.symm
  have even := trimModes_even modes
  have few := (trimModes_length eight).2
  exact category_words (by omega) (by omega)

/-- The category of memory management units holds the shortest data from which the modes of all
units can be restored, and fails just if a unit has a mode that is none. -/
theorem fmmuCategory_exact (s : Settings) :
    (∀ bytes, fmmuCategory s = .ok bytes →
      ∃ words data, bytes = header 40 words ++ data ∧ data.length = 2 * words ∧
        2 ≤ data.length ∧ data.length ≤ 8 ∧ Restores s data ∧
        ∀ other : Bytes, other ≠ [] → other.length % 2 = 0 → Restores s other →
          data.length ≤ other.length) ∧
    ((∃ e, fmmuCategory s = .error e) ↔ ∃ unit < 8, HasBadMode s unit) := by
  rw [fmmuCategory_eq]
  constructor
  · intro bytes made
    obtain ⟨modes, each, made⟩ := Except.bind_eq_ok made
    cases made
    have given : List.Forall₂ (HasMode s) (List.range 8) modes :=
      (mapM_forall₂ each).imp fun _ _ => fmmuMode_ok_iff.mp
    have eight : modes.length = 8 := given.length_eq.symm
    have even := trimModes_even modes
    obtain ⟨some, few⟩ := trimModes_length eight
    refine ⟨_, trimModes modes, rfl, by omega, some, few, ?_, ?_⟩
    · rwa [Restores, fillModes_trimModes eight]
    · intro other nonempty even restores
      exact trimModes_length_le nonempty even (modes_unique restores given)
  · have only : (∃ e, (do
        let modes ← (List.range 8).mapM (fmmuMode s)
        return header 40 ((trimModes modes).length / 2) ++ trimModes modes) = .error e) ↔
        ∃ e, (List.range 8).mapM (fmmuMode s) = .error e := by
      cases (List.range 8).mapM (fmmuMode s) <;> simp [bind, Except.bind, pure, Except.pure]
    simp only [only, mapM_fails_iff, List.mem_range, fmmuMode_error_iff]

/-- An unset unit between two that are set, and none behind them. -/
def gapSettings : Settings :=
  .ofList [("fmmu0.mode", .int 1), ("fmmu2.mode", .int 2)]

theorem fmmuCategory_exact_gap :
    fmmuCategory gapSettings = .ok [40, 0, 2, 0, 1, 0xff, 2, 0xff] ∧
      Restores gapSettings [1, 0xff, 2, 0xff] ∧ ¬Restores gapSettings [1, 0xff] ∧
      ∃ e, fmmuCategory (.ofList [("fmmu7.mode", .int 256)]) = .error e := by
  have made : fmmuCategory gapSettings = .ok [40, 0, 2, 0, 1, 0xff, 2, 0xff] :=
    Except.eq_ok_of_toOption (by decide +kernel)
  obtain ⟨words, data, same, -, -, -, restores, shortest⟩ := (fmmuCategory_exact _).1 _ made
  have split := congrArg (List.drop 4) same
  rw [List.drop_left' (length_header 40 words)] at split
  cases split
  refine ⟨made, restores, ?_, ?_⟩
  · intro shorter
    exact absurd (shortest _ (by decide) (by decide) shorter) (by decide)
  · apply (fmmuCategory_exact _).2.mpr
    have found : (Settings.ofList [("fmmu7.mode", .int 256)]).get? "fmmu7.mode" =
        some (.int 256) := by decide +kernel
    refine ⟨7, by decide, .int 256, found, ?_⟩
    rintro n same
    cases same
    decide

end EcatDevice.Eeprom
