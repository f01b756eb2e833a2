import EcatDevice.Eeprom.Image
import EcatDevice.Proofs.CategoryFormat
import EcatDevice.Proofs.SlotLayout
import Mathlib.Data.List.TakeWhile
import Mathlib.Order.Bounds.Basic
import Mathlib.Data.List.DropRight

/-! # What categories hold

The data of each category are read back: the strings behind their number, the modes of the memory
management units, and the entries of sync managers and clock units at multiples of their size.
-/

namespace EcatDevice

theorem Bytes.fromUTF8?_ofText (text : String) :
    String.fromUTF8? (Bytes.ofText text).toByteArray = some text := by
  have same : (Bytes.ofText text).toByteArray = text.toByteArray := String.utf8Encode_toList
  rw [same, String.fromUTF8?, dif_pos text.isValidUTF8]
  rfl

namespace Eeprom

theorem writeCategories_one (kind : UInt16) {data bytes : Bytes}
    (made : category kind data = .ok bytes) : writeCategories [(kind, data)] = .ok bytes :=
  joined_cons.mpr ⟨bytes, [], made, rfl, (List.append_nil bytes).symm⟩

/-- A category that may be missing. -/
def optional (present : Bool) (block : UInt16 × Bytes) : List (UInt16 × Bytes) :=
  if present then [block] else []

theorem eq_of_mem_optional {present : Bool} {block found : UInt16 × Bytes}
    (member : found ∈ optional present block) : found = block := by
  cases present with
  | false => cases member
  | true => exact List.mem_singleton.mp member

/-! ## Strings -/

/-- Reads a string behind its length. -/
def readEntry : Bytes → Option (String × Bytes)
  | [] => none
  | length :: bytes =>
    if bytes.length < length.toNat then none
    else do
      let text ← String.fromUTF8? (bytes.take length.toNat).toByteArray
      return (text, bytes.drop length.toNat)

/-- Reads so many strings. -/
def readEntries : Nat → Bytes → Option (List String × Bytes)
  | 0, bytes => some ([], bytes)
  | count + 1, bytes => do
    let (text, bytes) ← readEntry bytes
    let (texts, bytes) ← readEntries count bytes
    return (text :: texts, bytes)

/-- Reads strings behind their number. What is not read of the data is returned, too. -/
def readStrings : Bytes → Option (List String × Bytes)
  | [] => none
  | count :: bytes => readEntries count.toNat bytes

theorem readEntry_written {text : String} {bytes : Bytes} (made : stringEntry text = .ok bytes)
    (rest : Bytes) : readEntry (bytes ++ rest) = some (text, rest) := by
  dsimp only [stringEntry] at made
  split at made
  · next short =>
      cases made
      have length : (UInt8.ofNat (Bytes.ofText text).length).toNat = (Bytes.ofText text).length :=
        UInt8.toNat_ofNat_of_lt' short
      rw [List.cons_append, readEntry, length, List.take_left, List.drop_left,
        if_neg (by rw [List.length_append]; omega), Bytes.fromUTF8?_ofText]
      rfl
  · cases made

theorem readEntries_written {strings : List String} {bytes : Bytes}
    (made : joined stringEntry strings = .ok bytes) (rest : Bytes) :
    readEntries strings.length (bytes ++ rest) = some (strings, rest) := by
  induction strings generalizing bytes with
  | nil =>
      obtain rfl := joined_nil made
      rfl
  | cons text strings ih =>
      obtain ⟨first, others, here, later, rfl⟩ := joined_cons.mp made
      rw [List.length_cons, readEntries, List.append_assoc, readEntry_written here]
      dsimp only [Option.bind_eq_bind, Option.bind_some]
      rw [ih later]
      rfl

theorem stringsCategory_ok {strings : List String} {bytes : Bytes}
    (made : stringsCategory strings = .ok bytes) :
    ∃ data, category stringsKind data = .ok bytes ∧
      ∀ rest, readStrings (data ++ rest) = some (strings, rest) := by
  unfold stringsCategory at made
  split at made
  · next few =>
      obtain ⟨entries, each, made⟩ := Except.bind_eq_ok made
      refine ⟨_, made, ?_⟩
      have count : (UInt8.ofNat strings.length).toNat = strings.length :=
        UInt8.toNat_ofNat_of_lt' few
      intro rest
      rw [List.cons_append, readStrings, count, readEntries_written (joined_of_mapM each)]
  · cases made

theorem evenLength_fill (data : Bytes) :
    ∃ fill, evenLength data = data ++ fill ∧ (fill = [] ∨ fill = [0]) := by
  unfold evenLength
  split
  · exact ⟨[], (List.append_nil data).symm, .inl rfl⟩
  · exact ⟨[0], rfl, .inr rfl⟩

/-- The category of strings, if there is one to write. -/
def namesCategory (strings : List String) : Except Error Bytes :=
  if strings.isEmpty then pure [] else stringsCategory strings

theorem category_evenLength (kind : UInt16) (data : Bytes) :
    category kind (evenLength data) = category kind data := by
  simp only [category, evenLength_of_even (evenLength_even data)]

theorem namesCategory_ok {strings : List String} {bytes : Bytes}
    (made : namesCategory strings = .ok bytes) :
    ∃ data, data.length % 2 = 0 ∧
      writeCategories (optional (!strings.isEmpty) (stringsKind, data)) = .ok bytes ∧
      (strings ≠ [] →
        ∃ fill, readStrings data = some (strings, fill) ∧ (fill = [] ∨ fill = [0])) := by
  cases strings with
  | nil =>
      cases made
      exact ⟨[], rfl, rfl, fun some => absurd rfl some⟩
  | cons text strings =>
      obtain ⟨data, block, read⟩ := stringsCategory_ok made
      obtain ⟨fill, whole, small⟩ := evenLength_fill data
      rw [← category_evenLength] at block
      refine ⟨evenLength data, evenLength_even data, writeCategories_one _ block, fun _ => ?_⟩
      exact ⟨fill, by rw [whole, read], small⟩

/-! ## Memory management units -/

theorem fmmuMode_ok {s : Settings} {unit : Nat} {mode : UInt8}
    (made : fmmuMode s unit = .ok mode) :
    ∃ n, s.Gives (unitLead "fmmu" unit ++ "mode") 0xff n ∧ (mode.toNat : Int) = n.toInt := by
  unfold fmmuMode at made
  obtain ⟨n, given, made⟩ := Except.bind_eq_ok made
  split at made
  · next fits =>
      cases made
      refine ⟨n, Settings.intOr_ok.mp given, ?_⟩
      have small : n.toInt.toNat < UInt8.size := by
        unfold UInt8.size
        omega
      rw [UInt8.toNat_ofNat_of_lt' small]
      omega
  · cases made

theorem getD_append_same (front : Bytes) {rest other : Bytes} {b : UInt8} (all : ∀ x ∈ rest, x = b)
    (allOther : ∀ x ∈ other, x = b) (i : Nat) :
    (front ++ rest).getD i b = (front ++ other).getD i b := by
  have constant : ∀ row : Bytes, (∀ x ∈ row, x = b) → ∀ i, row.getD i b = b := by
    intro row every i
    rw [List.getD_eq_getElem?_getD]
    cases found : row[i]? with
    | none => rfl
    | some x => exact every x (List.mem_of_getElem? found)
  by_cases inside : i < front.length
  · rw [List.getD_append _ _ _ _ inside, List.getD_append _ _ _ _ inside]
  · rw [List.getD_append_right _ _ _ _ (by omega), List.getD_append_right _ _ _ _ (by omega),
      constant rest all, constant other allOther]

/-- The modes up to the last one that is set. -/
def usedModes (modes : Bytes) : Bytes :=
  modes.rdropWhile (· == 0xff)

/-- All modes behind the used ones are unset. -/
theorem usedModes_append (modes : Bytes) :
    usedModes modes ++ List.replicate (modes.length - (usedModes modes).length) 0xff = modes := by
  have split : usedModes modes ++ modes.rtakeWhile (· == 0xff) = modes :=
    List.rdropWhile_append_rtakeWhile
  have unset : modes.rtakeWhile (· == 0xff) =
      List.replicate (modes.length - (usedModes modes).length) 0xff := by
    rw [List.eq_replicate_iff]
    constructor
    · have lengths := congrArg List.length split
      rw [List.length_append] at lengths
      omega
    · intro mode member
      simpa using List.mem_rtakeWhile_imp member
  rw [← unset, split]

/-- Trimmed modes are the used ones and up to two unset ones. -/
theorem trimModes_eq (modes : Bytes) :
    ∃ count, trimModes modes = usedModes modes ++ List.replicate count 0xff ∧
      ((usedModes modes).length = 0 ∧ count = 2 ∨
        (usedModes modes).length ≠ 0 ∧ count = (usedModes modes).length % 2) := by
  have same : trimModes modes = if (usedModes modes).isEmpty then [0xff, 0xff]
      else if (usedModes modes).length % 2 = 0 then usedModes modes
      else usedModes modes ++ [0xff] := rfl
  rw [same]
  split
  · next none =>
      rw [List.isEmpty_iff.mp none]
      exact ⟨2, rfl, .inl ⟨rfl, rfl⟩⟩
  · next some =>
      have used : (usedModes modes).length ≠ 0 := by simpa using some
      split
      · next even => exact ⟨0, by simp, .inr ⟨used, even.symm⟩⟩
      · next odd => exact ⟨1, rfl, .inr ⟨used, by omega⟩⟩

/-- Trimming changes no mode if those behind the data count as unset. -/
theorem getD_trimModes (modes : Bytes) (i : Nat) :
    (trimModes modes).getD i 0xff = modes.getD i 0xff := by
  obtain ⟨count, trimmed, -⟩ := trimModes_eq modes
  rw [trimmed]
  conv_rhs => rw [← usedModes_append modes]
  exact getD_append_same _ (by simp) (by simp) i

theorem trimModes_even (modes : Bytes) : (trimModes modes).length % 2 = 0 := by
  obtain ⟨count, trimmed, counts⟩ := trimModes_eq modes
  rw [trimmed, List.length_append, List.length_replicate]
  omega

theorem fmmuCategory_ok {s : Settings} {bytes : Bytes} (made : fmmuCategory s = .ok bytes) :
    ∃ data, data.length % 2 = 0 ∧ category fmmuKind data = .ok bytes ∧
      ∀ unit < 8, ∃ n, s.Gives (unitLead "fmmu" unit ++ "mode") 0xff n ∧
        ((data.getD unit 0xff).toNat : Int) = n.toInt := by
  unfold fmmuCategory at made
  obtain ⟨modes, each, made⟩ := Except.bind_eq_ok made
  refine ⟨trimModes modes, trimModes_even modes, made, ?_⟩
  intro unit few
  have found : (List.range unitCount)[unit]? = some unit := List.getElem?_range few
  obtain ⟨mode, here, present⟩ := mapM_at each found
  obtain ⟨n, given, value⟩ := fmmuMode_ok here
  refine ⟨n, given, ?_⟩
  rw [getD_trimModes, List.getD_eq_getElem?_getD, present]
  exact value

/-! ## Sync managers -/

/-- The fold over all units finds the one behind the last that is on. -/
theorem foldl_range_last (on : Nat → Bool) (count : Nat) :
    ((List.range count).foldl (fun found unit => if on unit then unit + 1 else found) 0 = 0 ∧
      ∀ unit < count, on unit = false) ∨
    ∃ last, (List.range count).foldl (fun found unit => if on unit then unit + 1 else found) 0 =
        last + 1 ∧ IsGreatest {unit | unit < count ∧ on unit = true} last := by
  induction count with
  | zero => exact .inl ⟨rfl, by simp⟩
  | succ count ih =>
      rw [List.range_succ, List.foldl_append, List.foldl_cons, List.foldl_nil]
      by_cases here : on count = true
      · refine .inr ⟨count, if_pos here, ⟨Nat.lt_succ_self count, here⟩, ?_⟩
        rintro unit ⟨inside, -⟩
        exact Nat.le_of_lt_succ inside
      · rw [if_neg here]
        rcases ih with ⟨zero, off⟩ | ⟨last, found, member, greatest⟩
        · refine .inl ⟨zero, ?_⟩
          intro unit inside
          rcases Nat.lt_succ_iff_lt_or_eq.mp inside with before | rfl
          · exact off unit before
          · exact eq_false_of_ne_true here
        · refine .inr ⟨last, found, ⟨Nat.lt_succ_of_lt member.1, member.2⟩, ?_⟩
          rintro unit ⟨inside, on⟩
          rcases Nat.lt_succ_iff_lt_or_eq.mp inside with before | rfl
          · exact greatest ⟨before, on⟩
          · exact absurd on here

/-- The sync managers that are on. -/
def managersOn (s : Settings) : Set Nat :=
  {unit | unit < 8 ∧ s.flag (unitLead "sm" unit ++ "enable") = true}

theorem length_managerEntry (s : Settings) (unit : Nat) (bytes : Bytes)
    (made : packLayout s (unitLead "sm" unit) syncManagerSlots = .ok bytes) : bytes.length = 8 :=
  length_packLayout made

theorem syncManagerCategory_ok {s : Settings} {found : Option Bytes}
    (made : syncManagerCategory s = .ok found) :
    ∃ data, data.length % 2 = 0 ∧
      writeCategories (optional
        ((List.range 8).any fun unit => s.flag (unitLead "sm" unit ++ "enable"))
        (syncManagerKind, data)) = .ok (found.getD []) ∧
      ∀ last, IsGreatest (managersOn s) last → data.length = 8 * (last + 1) ∧
        ∀ unit ≤ last, Holds s (unitLead "sm" unit) syncManagerSlots [] (data.drop (8 * unit)) := by
  have counted := foldl_range_last (fun unit => s.flag (unitLead "sm" unit ++ "enable")) 8
  unfold syncManagerCategory at made
  dsimp only [syncManagerCount, unitCount] at made
  rcases counted with ⟨zero, off⟩ | ⟨last, count, greatest⟩
  · rw [zero] at made
    cases made
    refine ⟨[], rfl, ?_, ?_⟩
    · rw [List.any_eq_false.mpr]
      · rfl
      · intro unit member
        rw [off unit (List.mem_range.mp member)]
        exact Bool.false_ne_true
    · rintro last ⟨⟨few, on⟩, -⟩
      rw [off last few] at on
      cases on
  · rw [count] at made
    obtain ⟨entries, each, made⟩ := Except.bind_eq_ok made
    obtain ⟨bytes, block, made⟩ := Except.bind_eq_ok made
    cases made
    have row := joined_of_mapM each
    have length : entries.flatten.length = 8 * (last + 1) := by
      rw [length_joined_same (length_managerEntry s) row, List.length_range]
    refine ⟨entries.flatten, by omega, ?_, ?_⟩
    · have some : ((List.range 8).any fun unit => s.flag (unitLead "sm" unit ++ "enable")) = true :=
        List.any_eq_true.mpr ⟨last, List.mem_range.mpr greatest.1.1, greatest.1.2⟩
      rw [some]
      exact writeCategories_one _ block
    · intro other alike
      obtain rfl : other = last := alike.unique greatest
      refine ⟨length, ?_⟩
      intro unit upTo
      have found : (List.range (other + 1))[unit]? = some unit :=
        List.getElem?_range (Nat.lt_succ_of_le upTo)
      obtain ⟨here, rest, packed, place⟩ := joined_at (length_managerEntry s) row found
      rw [place]
      exact packLayout_holds packed rest

/-! ## Clock units -/

theorem mem_namedClocks (s : Settings) (unit : Nat) :
    unit ∈ namedClocks s ↔
      unit < 8 ∧ s.flag "DC_SUPPORTED" = true ∧ s.flag (unitLead "dc" unit ++ "name") = true := by
  unfold namedClocks
  split
  · next supported => simp [supported, unitCount]
  · next off => simp [off]

theorem namedClocks_ascending (s : Settings) : (namedClocks s).Pairwise (· < ·) := by
  unfold namedClocks
  split
  · exact List.pairwise_lt_range.filter _
  · exact .nil

theorem not_isEmpty_namedClocks (s : Settings) :
    (!(namedClocks s).isEmpty) = (s.flag "DC_SUPPORTED" &&
      (List.range 8).any fun unit => s.flag (unitLead "dc" unit ++ "name")) := by
  rw [Bool.eq_iff_iff, Bool.not_eq_true', List.isEmpty_eq_false_iff, Bool.and_eq_true,
    List.any_eq_true]
  constructor
  · intro some
    obtain ⟨unit, member⟩ := List.exists_mem_of_ne_nil _ some
    obtain ⟨few, supported, named⟩ := (mem_namedClocks s unit).mp member
    exact ⟨supported, unit, List.mem_range.mpr few, named⟩
  · rintro ⟨supported, unit, member, named⟩
    exact List.ne_nil_of_mem ((mem_namedClocks s unit).mpr
      ⟨List.mem_range.mp member, supported, named⟩)

theorem length_clockEntry (s : Settings) (unit : Nat) (bytes : Bytes)
    (made : packLayout s (unitLead "dc" unit) clockSlots = .ok bytes) : bytes.length = 24 :=
  length_packLayout made

theorem clockCategory_ok {s : Settings} {found : Option Bytes}
    (made : clockCategory s = .ok found) :
    ∃ data, data.length = 24 * (namedClocks s).length ∧
      writeCategories (optional
        (s.flag "DC_SUPPORTED" &&
          (List.range 8).any fun unit => s.flag (unitLead "dc" unit ++ "name"))
        (clockKind, data)) = .ok (found.getD []) ∧
      ∀ i unit, (namedClocks s)[i]? = some unit →
        Holds s (unitLead "dc" unit) clockSlots [] (data.drop (24 * i)) := by
  rw [← not_isEmpty_namedClocks]
  unfold clockCategory at made
  dsimp only at made
  split at made
  · next none =>
      cases made
      rw [List.isEmpty_iff.mp none]
      exact ⟨[], rfl, rfl, by simp⟩
  · next some =>
      obtain ⟨entries, each, made⟩ := Except.bind_eq_ok made
      obtain ⟨bytes, block, made⟩ := Except.bind_eq_ok made
      cases made
      have row := joined_of_mapM each
      refine ⟨entries.flatten, ?_, ?_, ?_⟩
      · exact length_joined_same (length_clockEntry s) row
      · rw [Bool.eq_false_iff.mpr some]
        exact writeCategories_one _ block
      · intro i unit found
        obtain ⟨here, rest, packed, place⟩ := joined_at (length_clockEntry s) row found
        rw [place]
        exact packLayout_holds packed rest

end Eeprom

end EcatDevice
