import EcatDevice.Proofs.ImageParts

/-! # The image read back

An image that is built reads back to the settings it was built from: its size, the configuration
area with the checksum inside, and the categories. On the way the image fixes some keys of its own,
the checksum and the places of names; all other keys count as the settings have them.
-/

namespace EcatDevice.Eeprom

/-! ## Slots of other keys -/

def Slot.key? : Slot → Option String
  | .word key _ _ => some key
  | .gap _ => none

theorem Slot.mem_keys {layout : List Slot} {key : String} {fallback : Int64} {format : Format}
    (member : .word key fallback format ∈ layout) : key ∈ layout.filterMap Slot.key? :=
  List.mem_filterMap.mpr ⟨_, member, rfl⟩

section
variable {s other : Settings} (agree : Agree s other)
include agree

theorem Agree.insert {key : String} (place : key ∈ placeKeys) (value : Value) :
    Agree s (other.insert key value) := by
  intro asked free
  rw [Settings.get?_insert, if_neg, agree asked free]
  rintro rfl
  exact free place

theorem Agree.holds {lead : String} {layout : List Slot} {skip : List String} {bytes : Bytes}
    (held : Holds other lead layout [] bytes)
    (free : ∀ key ∈ layout.filterMap Slot.key?, key ∉ skip → lead ++ key ∉ placeKeys) :
    Holds s lead layout skip bytes := by
  intro before key fallback format after split kept
  obtain ⟨n, given, value⟩ := held before key fallback format after split List.not_mem_nil
  have member : Slot.word key fallback format ∈ layout := by
    rw [split]
    exact List.mem_append_right before List.mem_cons_self
  exact ⟨n, given.congr (agree _ (free key (Slot.mem_keys member) kept)), value⟩

end

/-! ## The configuration area -/

theorem word_byte (b : UInt8) : Bytes.ofInt 2 b.toNat = [b, 0] := by
  have count : ((Bytes.valueCount 2 : Nat) : Int) = 0x10000 := rfl
  have small := b.toNat_lt
  have whole : ((b.toNat : Int) % 0x10000).toNat = b.toNat := by omega
  have high : b.toNat / 256 = 0 := by omega
  rw [Bytes.ofInt, count, whole]
  simp only [Bytes.littleEndian, high, UInt8.ofNat_toNat]
  rfl

/-- The configuration area starts with its head and the checksum of the head. -/
theorem config_head {s : Settings} {head config : Bytes}
    (packed : packLayout s "" headSlots = .ok head)
    (made : packLayout (s.insert "sii.checksum" (checksumValue head)) "" configSlots =
      .ok config) :
    ∃ rest, config = head ++ [crc8 head, 0] ++ rest := by
  obtain ⟨front, back, first, behind, rfl⟩ := joined_append.mp made
  obtain ⟨word, rest, here, -, rfl⟩ := joined_cons.mp behind
  have same : front = head := by
    have keys : ∀ key ∈ headSlots.filterMap Slot.key?, "sii.checksum" ≠ "" ++ key := by decide
    rw [← packLayout_eq, packLayout_congr (s := s)] at first
    · exact Except.ok.inj (first.symm.trans packed)
    · intro key fallback format member
      rw [Settings.get?_insert, if_neg (keys key (Slot.mem_keys member))]
  obtain ⟨n, given, -, rfl⟩ := Slot.pack_word here
  have value : n.toInt = (crc8 head).toNat := by
    unfold Settings.Gives at given
    rw [Settings.get?_insert, if_pos (by decide)] at given
    rcases given with found | ⟨missing, -⟩
    · cases found
      exact Int64.toInt_ofNat_of_lt (Nat.lt_trans (crc8 head).toNat_lt (by decide))
    · cases missing
  exact ⟨rest, by rw [same, value, Format.width, word_byte, List.append_assoc]⟩

/-! ## Categories -/

/-- The data of all categories that an image can have. -/
structure CategoryData where
  names : Bytes
  general : Bytes
  units : Bytes
  managers : Bytes
  clocks : Bytes

namespace CategoryData

/-- The categories that settings and strings ask for, in their order. -/
def blocks (data : CategoryData) (s : Settings) (strings : List String) :
    List (UInt16 × Bytes) :=
  optional (!strings.isEmpty) (10, data.names) ++
    [(30, data.general), (40, data.units)] ++
    optional ((List.range 8).any fun unit => s.flag (unitLead "sm" unit ++ "enable"))
      (41, data.managers) ++
    optional (s.flag "DC_SUPPORTED" &&
        (List.range 8).any fun unit => s.flag (unitLead "dc" unit ++ "name"))
      (60, data.clocks)

/-- The data read back to the strings and the settings, but for the keys in `skip`. -/
structure Reads (data : CategoryData) (s : Settings) (strings skip : List String) : Prop where
  names : strings ≠ [] →
    ∃ fill, readStrings data.names = some (strings, fill) ∧ (fill = [] ∨ fill = [0])
  generalLength : data.general.length = 32
  general : Holds s "" generalSlots skip data.general
  units : ∀ unit < 8, ∃ n, s.Gives (unitLead "fmmu" unit ++ "mode") 0xff n ∧
    ((data.units.getD unit 0xff).toNat : Int) = n.toInt
  managers : ∀ last, IsGreatest (managersOn s) last → data.managers.length = 8 * (last + 1) ∧
    ∀ unit ≤ last,
      Holds s (unitLead "sm" unit) syncManagerSlots skip (data.managers.drop (8 * unit))
  /-- one record for each named unit, in ascending order -/
  clocks : ∃ units : List Nat, units.Pairwise (· < ·) ∧
    (∀ unit, unit ∈ units ↔
      unit < 8 ∧ s.flag "DC_SUPPORTED" = true ∧ s.flag (unitLead "dc" unit ++ "name") = true) ∧
    data.clocks.length = 24 * units.length ∧
    ∀ i unit, units[i]? = some unit →
      Holds s (unitLead "dc" unit) clockSlots skip (data.clocks.drop (24 * i))

end CategoryData

theorem allCategories_eq (s : Settings) (strings : List String) :
    allCategories s strings = do
      let names ← namesCategory strings
      let general ← category generalKind (← packLayout s "" generalSlots)
      let units ← fmmuCategory s
      let managers ← syncManagerCategory s
      let clocks ← clockCategory s
      return names ++ general ++ units ++ managers.getD [] ++ clocks.getD [] := by
  cases strings <;> rfl

theorem allCategories_ok {s : Settings} {strings : List String} {content : Bytes}
    (made : allCategories s strings = .ok content) :
    ∃ data : CategoryData, data.Reads s strings [] ∧
      (∀ block ∈ data.blocks s strings, block.1 ≠ endKind ∧ block.2.length % 2 = 0) ∧
      writeCategories (data.blocks s strings) = .ok content := by
  rw [allCategories_eq] at made
  obtain ⟨names, first, made⟩ := Except.bind_eq_ok made
  obtain ⟨general, packed, made⟩ := Except.bind_eq_ok made
  obtain ⟨generalBlock, second, made⟩ := Except.bind_eq_ok made
  obtain ⟨units, third, made⟩ := Except.bind_eq_ok made
  obtain ⟨managers, fourth, made⟩ := Except.bind_eq_ok made
  obtain ⟨clocks, fifth, made⟩ := Except.bind_eq_ok made
  cases made
  obtain ⟨namesData, namesEven, namesBlock, namesRead⟩ := namesCategory_ok first
  obtain ⟨unitsData, unitsEven, unitsBlock, unitsRead⟩ := fmmuCategory_ok third
  obtain ⟨managersData, managersEven, managersBlock, managersRead⟩ := syncManagerCategory_ok fourth
  obtain ⟨clocksData, clocksLength, clocksBlock, clocksRead⟩ := clockCategory_ok fifth
  have generalLength : general.length = 32 := length_packLayout packed
  have generalRead := packLayout_holds packed []
  rw [List.append_nil] at generalRead
  refine ⟨⟨namesData, general, unitsData, managersData, clocksData⟩,
    ⟨namesRead, generalLength, generalRead, unitsRead, managersRead, namedClocks s,
      namedClocks_ascending s, mem_namedClocks s, clocksLength, clocksRead⟩, ?_, ?_⟩
  · intro block member
    simp only [CategoryData.blocks, List.mem_append, List.mem_cons, List.not_mem_nil,
      or_false] at member
    rcases member with ((isNames | isGeneral | isUnits) | isManagers) | isClocks
    · rw [eq_of_mem_optional isNames]
      exact ⟨(by decide : (10 : UInt16) ≠ endKind), namesEven⟩
    · rw [isGeneral]
      exact ⟨(by decide : (30 : UInt16) ≠ endKind), by rw [generalLength]⟩
    · rw [isUnits]
      exact ⟨(by decide : (40 : UInt16) ≠ endKind), unitsEven⟩
    · rw [eq_of_mem_optional isManagers]
      exact ⟨(by decide : (41 : UInt16) ≠ endKind), managersEven⟩
    · rw [eq_of_mem_optional isClocks]
      exact ⟨(by decide : (60 : UInt16) ≠ endKind), by rw [clocksLength]; omega⟩
  · have middle : writeCategories [(30, general), (40, unitsData)] = .ok (generalBlock ++ units) :=
      joined_cons.mpr ⟨generalBlock, units, second, writeCategories_one _ unitsBlock, rfl⟩
    have front := joined_append.mpr ⟨names, _, namesBlock, middle, rfl⟩
    have more := joined_append.mpr ⟨_, managers.getD [], front, managersBlock, rfl⟩
    have whole := joined_append.mpr ⟨_, clocks.getD [], more, clocksBlock, rfl⟩
    rw [List.append_assoc names]
    exact whole

/-! ## The whole image -/

theorem fillImage_ok {s : Settings} {content bytes : Bytes}
    (made : fillImage s content = .ok bytes) :
    ∃ n, s.Gives "ESC_EEPROM_SIZE" 0x800 n ∧ (bytes.length : Int) = n.toInt ∧
      ∃ count, bytes = content ++ List.replicate count 0xff := by
  obtain ⟨n, given, made⟩ := Except.bind_eq_ok made
  split at made
  · cases made
  · split at made
    · cases made
    · cases made
      refine ⟨n, Settings.intOr_ok.mp given, ?_, _, rfl⟩
      rw [List.length_append, List.length_replicate]
      omega

/-! ## From the working settings to the given ones -/

/-- The keys of slots that hold places of names. -/
def placeSlots : List String :=
  ["GROUP_IDX", "IMG_IDX", "ORDER_NO_IDX", "DEVICE_IDX", "name_idx"]

theorem general_free : ∀ key ∈ generalSlots.filterMap Slot.key?, key ∉ placeSlots →
    "" ++ key ∉ placeKeys := by
  decide

theorem managers_free : ∀ unit < 8, ∀ key ∈ syncManagerSlots.filterMap Slot.key?,
    unitLead "sm" unit ++ key ∉ placeKeys := by
  decide

theorem clocks_free : ∀ unit < 8, ∀ key ∈ clockSlots.filterMap Slot.key?, key ∉ placeSlots →
    unitLead "dc" unit ++ key ∉ placeKeys := by
  decide

section
variable {s other : Settings} (agree : Agree s other)
include agree

theorem Agree.managersOn_eq : managersOn other = managersOn s := by
  ext unit
  refine and_congr_right ?_
  intro few
  rw [agree.flag (switches_free.2 unit few).1]

theorem Agree.blocks_eq (data : CategoryData) (strings : List String) :
    data.blocks other strings = data.blocks s strings := by
  have anyOf : ∀ on onOther : Nat → Bool, (∀ unit < 8, onOther unit = on unit) →
      (List.range 8).any onOther = (List.range 8).any on := by
    intro on onOther same
    rw [Bool.eq_iff_iff, List.any_eq_true, List.any_eq_true]
    refine exists_congr fun unit => and_congr_right fun member => ?_
    rw [same unit (List.mem_range.mp member)]
  unfold CategoryData.blocks
  rw [agree.flag switches_free.1, anyOf _ _ fun unit few => agree.flag (switches_free.2 unit few).1,
    anyOf _ _ fun unit few => agree.flag (switches_free.2 unit few).2.1]

theorem Agree.clock_iff (unit : Nat) :
    (unit < 8 ∧ other.flag "DC_SUPPORTED" = true ∧
        other.flag (unitLead "dc" unit ++ "name") = true) ↔
      unit < 8 ∧ s.flag "DC_SUPPORTED" = true ∧ s.flag (unitLead "dc" unit ++ "name") = true := by
  apply and_congr_right
  intro few
  rw [agree.flag switches_free.1, agree.flag (switches_free.2 unit few).2.1]

theorem Agree.reads {data : CategoryData} {strings : List String}
    (reads : data.Reads other strings []) : data.Reads s strings placeSlots where
  names := reads.names
  generalLength := reads.generalLength
  general := agree.holds reads.general general_free
  units := by
    intro unit few
    obtain ⟨n, given, value⟩ := reads.units unit few
    exact ⟨n, given.congr (agree _ (switches_free.2 unit few).2.2), value⟩
  managers := by
    intro last greatest
    rw [← agree.managersOn_eq] at greatest
    obtain ⟨length, each⟩ := reads.managers last greatest
    refine ⟨length, ?_⟩
    intro unit upTo
    have few : unit < 8 := Nat.lt_of_le_of_lt upTo greatest.1.1
    exact agree.holds (each unit upTo) fun key member _ => managers_free unit few key member
  clocks := by
    obtain ⟨units, ascending, named, length, each⟩ := reads.clocks
    refine ⟨units, ascending, ?_, length, ?_⟩
    · intro unit
      rw [named, agree.clock_iff]
    · intro i unit found
      have few := ((named unit).mp (List.mem_of_getElem? found)).1
      exact agree.holds (each i unit found) (clocks_free unit few)

end

/-! ## The main statement -/

/-- The image holds what the settings say. -/
structure ReadsBack (s : Settings) (image : Image) (data : CategoryData) : Prop where
  size : ∃ n, s.Gives "ESC_EEPROM_SIZE" 0x800 n ∧ (image.bytes.length : Int) = n.toInt
  head : packLayout s "" headSlots = .ok (image.bytes.take 14)
  checksum : crc8 (image.bytes.take 14) = image.checksum ∧
    image.bytes[14]? = some image.checksum ∧ image.bytes[15]? = some 0
  config : Holds s "" configSlots ["sii.checksum"] image.bytes
  categories : categories image.bytes = .ok (data.blocks s image.strings)
  /-- behind the last category there are bytes `0xFF` only -/
  fill : ∃ content count, writeCategories (data.blocks s image.strings) = .ok content ∧
    image.bytes = image.bytes.take 128 ++ content ++ List.replicate count 0xff
  reads : data.Reads s image.strings placeSlots

theorem config_free : ∀ key ∈ configSlots.filterMap Slot.key?, key ∉ ["sii.checksum"] →
    "" ++ key ∉ placeKeys := by
  decide

theorem ended_replicate (count : Nat) : Ended (List.replicate count 0xff) := by
  match count with
  | 0 | 1 => exact .inl (by simp)
  | count + 2 => exact .inr ⟨List.replicate count 0xff, rfl⟩

/-- An image reads back to the settings it was built from. -/
theorem build_readsBack {s : Settings} {image : Image} (made : build s = .ok image) :
    ∃ data, ReadsBack s image data := by
  obtain ⟨parts, rfl⟩ := build_ok_iff.mp made
  have start : Agree s (s.insert "sii.checksum" (checksumValue parts.head)) := by
    refine Agree.insert ?_ (List.mem_append_left _ List.mem_cons_self) _
    intro key _
    rfl
  obtain ⟨data, reads, good, blocks⟩ := allCategories_ok parts.written
  rw [parts.agree.blocks_eq] at good blocks
  obtain ⟨n, given, length, count, bytes⟩ := fillImage_ok parts.filled
  have whole : parts.image.bytes = parts.config ++ parts.content ++ List.replicate count 0xff :=
    bytes
  obtain ⟨rest, split⟩ := config_head parts.headPacked parts.configPacked
  have headLength : parts.head.length = 14 := length_packLayout parts.headPacked
  have configLength : parts.config.length = 128 := length_packLayout parts.configPacked
  have front : parts.image.bytes = parts.head ++
      (crc8 parts.head :: 0 :: (rest ++ parts.content ++ List.replicate count 0xff)) := by
    rw [whole, split]
    simp only [List.append_assoc, List.cons_append, List.nil_append]
  have headBytes : parts.image.bytes.take 14 = parts.head := by
    rw [front, ← headLength, List.take_left]
  have configBytes : parts.image.bytes.take 128 = parts.config := by
    rw [whole, List.append_assoc, ← configLength, List.take_left]
  refine ⟨data, ⟨n, ?_, length⟩, ?_, ⟨?_, ?_, ?_⟩, ?_, ?_, ?_, ?_⟩
  · exact given.congr (parts.agree _ (by decide))
  · rw [headBytes, parts.headPacked]
  · rw [headBytes]
    rfl
  · rw [front, List.getElem?_append_right (by omega), headLength]
    rfl
  · rw [front, List.getElem?_append_right (by omega), headLength]
    rfl
  · rw [whole, List.append_assoc]
    exact start.holds (packLayout_holds parts.configPacked _) config_free
  · rw [whole, categories_ended configLength (fun block member => (good block member).1) blocks
      (ended_replicate count), map_evenLength fun block member => (good block member).2]
    rfl
  · exact ⟨parts.content, count, blocks, by rw [configBytes, whole]⟩
  · exact parts.agree.reads reads

/-- Settings with a named device, a named clock unit, and sync managers up to the third. -/
def sampleSettings : Settings := Settings.ofList [
  ("DEVICE_NAME", .str "Drive"), ("DC_SUPPORTED", .int 1), ("dc1.name", .str "Sync"),
  ("dc1.sync0_shift", .int (-5)), ("sm2.enable", .int 1), ("sm2.size", .int 300),
  ("fmmu1.mode", .int 2), ("VENDOR_ID", .int 0x1234), ("ESC_EEPROM_SIZE", .int 512)]

theorem build_readsBack_sample :
    ∃ image data, build sampleSettings = .ok image ∧ ReadsBack sampleSettings image data ∧
      image.bytes.length = 512 ∧ image.strings = ["Drive", "Sync"] := by
  have parts : (build sampleSettings).toOption.map (fun image =>
      (image.bytes.length, image.strings)) = some (512, ["Drive", "Sync"]) := by
    decide +kernel
  obtain ⟨image, made, parts⟩ := Except.exists_ok_of_shown parts
  obtain ⟨length, strings⟩ := Prod.mk.inj parts
  obtain ⟨data, readsBack⟩ := build_readsBack made
  exact ⟨image, data, made, readsBack, length, strings⟩

end EcatDevice.Eeprom
