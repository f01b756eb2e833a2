import EcatDevice.Proofs.ImageReadBack
import EcatDevice.Proofs.ListingReading

/-! # Published settings

What an image publishes agrees with its bytes. The place of a name is found again among the strings
and in the records that refer to the name, the checksum is the byte behind the head, and the
listings read back to the bytes that they list.
-/

namespace EcatDevice.Eeprom

/-! ## Bytes of a layout -/

/-- A word of one byte, read at its place, is the integer that its key has. -/
theorem Holds.byte {s : Settings} {lead : String} {layout : List Slot} {bytes : Bytes}
    (held : Holds s lead layout [] bytes) {before after : List Slot} {key : String}
    {fallback n : Int64} (split : layout = before ++ .word key fallback .unsigned8 :: after)
    (inside : totalOf Slot.size before < bytes.length)
    (found : s.get? (lead ++ key) = some (.int n)) :
    ∃ b, bytes[totalOf Slot.size before]? = some b ∧ n = Int64.ofNat b.toNat := by
  obtain ⟨given, gives, value⟩ := held before key fallback _ after split List.not_mem_nil
  have same : given = n := by
    rcases gives with has | ⟨missing, -⟩
    · simpa using has.symm.trans found
    · simp [missing] at found
  subst same
  refine ⟨bytes[totalOf Slot.size before], List.getElem?_eq_getElem inside, ?_⟩
  have one : Bytes.toNat ((bytes.drop (totalOf Slot.size before)).take 1) =
      (bytes[totalOf Slot.size before]).toNat := by
    simp only [List.drop_eq_getElem_cons inside, List.take_succ_cons, List.take_zero, Bytes.toNat]
    rfl
  have read : (((bytes[totalOf Slot.size before]).toNat : Nat) : Int) = given.toInt := by
    rw [← one]
    exact value
  rw [← Int64.ofInt_toInt given, ← read]
  rfl

/-! ## Strings -/

theorem allCategories_few {s : Settings} {strings : List String} {content : Bytes}
    (made : allCategories s strings = .ok content) : strings.length < 256 := by
  rw [allCategories_eq] at made
  obtain ⟨names, made, -⟩ := Except.bind_eq_ok made
  cases strings with
  | nil => simp
  | cons text strings =>
      simp only [namesCategory, List.isEmpty_cons, Bool.false_eq_true, if_false,
        stringsCategory] at made
      split at made
      · assumption
      · cases made

/-! ## The main statement -/

/-- The published place of a name is its place among the strings of the image. -/
def PlacePublished (s : Settings) (image : Image) (keys : String × String) : Prop :=
  ∃ j < 256, image.published.get? keys.2 = some (.int (Int64.ofNat j)) ∧
    Placed s image.strings keys.1 j

/-- The byte at a position is published under a key. -/
def BytePublished (image : Image) (bytes : Bytes) (position : Nat) (key : String) : Prop :=
  ∃ b, bytes[position]? = some b ∧
    image.published.get? key = some (.int (Int64.ofNat b.toNat))

/-- The text under a key lists bytes as hexadecimal digits. -/
def HexPublished (image : Image) (key : String) (bytes : Bytes) : Prop :=
  ∃ text, image.published.get? key = some (.str text) ∧ Bytes.readHex text.toList = some bytes

/-- The places of names at the start of the general category. -/
def generalPlaces : List String :=
  ["GROUP_IDX", "IMG_IDX", "ORDER_NO_IDX", "DEVICE_IDX"]

/-- What is published agrees with the image. -/
structure Publishes (s : Settings) (image : Image) (data : CategoryData) : Prop where
  names : ∀ keys ∈ namedStrings, PlacePublished s image keys
  clockNames : s.flag "DC_SUPPORTED" = true → ∀ unit < 8,
    s.get? (unitLead "dc" unit ++ "name") ≠ none →
      PlacePublished s image (unitLead "dc" unit ++ "name", unitLead "dc" unit ++ "name_idx")
  categories : categories image.bytes = .ok (data.blocks s image.strings)
  general : ∀ i key, generalPlaces[i]? = some key → BytePublished image data.general i key
  /-- one record for each named unit, in ascending order -/
  clocks : ∃ units : List Nat, units.Pairwise (· < ·) ∧
    (∀ unit, unit ∈ units ↔
      unit < 8 ∧ s.flag "DC_SUPPORTED" = true ∧ s.flag (unitLead "dc" unit ++ "name") = true) ∧
    data.clocks.length = 24 * units.length ∧
    ∀ i unit, units[i]? = some unit →
      BytePublished image data.clocks (24 * i + 18) (unitLead "dc" unit ++ "name_idx")
  head : HexPublished image "config_data" (image.bytes.take 14)
  bootstrap : HexPublished image "bootstrap" ((image.bytes.drop 0x28).take 8)
  checksum : BytePublished image image.bytes 14 "sii.checksum"
  /-- all bytes, and zeros up to whole lines of sixteen -/
  initializer : ∃ text count,
    image.published.get? "sii_eeprom_initializer" = some (.str text) ∧
      Bytes.readCells text.toList =
        some (image.bytes.map UInt8.toNat ++ List.replicate count 0) ∧
      count < 16 ∧ (image.bytes.length + count) % 16 = 0

theorem clockKeys_eq (unit : Nat) :
    clockKeys unit = (unitLead "dc" unit ++ "name", unitLead "dc" unit ++ "name_idx") := by
  simp only [clockKeys, String.append_assoc]
  rfl

/-- Places of names lie in the general category one behind the other. -/
theorem generalPlaces_split : ∀ entry ∈ generalPlaces.zipIdx,
    generalSlots = generalSlots.take entry.2 ++
      .word entry.1 0 .unsigned8 :: generalSlots.drop (entry.2 + 1) ∧
    totalOf Slot.size (generalSlots.take entry.2) = entry.2 ∧ entry.2 < 32 ∧
    ∃ keys ∈ namedStrings, keys.2 = entry.1 := by
  decide

namespace Parts
variable {s : Settings} (parts : Parts s)

theorem placePublished {keys : String × String} (asked : keys ∈ nameKeys s) :
    PlacePublished s parts.image keys := by
  obtain ⟨j, found, placed⟩ := nameKeys_placed parts.collects asked
  have isPlace := (allNameKeys_apart keys ((nameKeys_sublist s).subset asked)).2
  have few := allCategories_few parts.written
  exact ⟨j, Nat.lt_of_le_of_lt placed.le_length few, by rw [parts.get?_published isPlace, found],
    placed⟩

/-- Categories take the places of names from what is published. -/
theorem bytePublished {lead : String} {layout : List Slot} {bytes : Bytes}
    (held : Holds (s.merge parts.found.2) lead layout [] bytes) {before after : List Slot}
    {key : String} {fallback : Int64}
    (split : layout = before ++ .word key fallback .unsigned8 :: after)
    (inside : totalOf Slot.size before < bytes.length) {keys : String × String}
    (asked : keys ∈ nameKeys s) (whole : lead ++ key = keys.2) :
    BytePublished parts.image bytes (totalOf Slot.size before) keys.2 := by
  obtain ⟨j, found, -⟩ := nameKeys_placed parts.collects asked
  have isPlace := (allNameKeys_apart keys ((nameKeys_sublist s).subset asked)).2
  have merged : (s.merge parts.found.2).get? (lead ++ key) = some (.int (Int64.ofNat j)) := by
    rw [whole, Settings.get?_merge, found]
    rfl
  obtain ⟨b, here, value⟩ := held.byte split inside merged
  exact ⟨b, here, by rw [parts.get?_published isPlace, found, value]⟩

theorem generalPublished {general : Bytes} (length : general.length = 32)
    (held : Holds (s.merge parts.found.2) "" generalSlots [] general) {i : Nat} {key : String}
    (here : generalPlaces[i]? = some key) : BytePublished parts.image general i key := by
  have member : (key, i) ∈ generalPlaces.zipIdx := List.mk_mem_zipIdx_iff_getElem?.mpr here
  obtain ⟨split, offset, small, keys, named, rfl⟩ := generalPlaces_split _ member
  have place := parts.bytePublished held split (by rw [offset, length]; exact small)
    (List.mem_append_left _ named) String.empty_append
  rwa [offset] at place

theorem clockPublished {clocks : Bytes} {units : List Nat} {i unit : Nat}
    (length : clocks.length = 24 * units.length) (here : units[i]? = some unit)
    (held : Holds (s.merge parts.found.2) (unitLead "dc" unit) clockSlots []
      (clocks.drop (24 * i)))
    (asked : clockKeys unit ∈ nameKeys s) :
    BytePublished parts.image clocks (24 * i + 18) (clockKeys unit).2 := by
  have inside := (List.getElem?_eq_some_iff.mp here).1
  have split : clockSlots =
      clockSlots.take 6 ++ .word "name_idx" 0 .unsigned8 :: clockSlots.drop 7 := rfl
  have offset : totalOf Slot.size (clockSlots.take 6) = 18 := rfl
  obtain ⟨b, found, value⟩ := parts.bytePublished held split
    (by rw [offset, List.length_drop]; omega) asked (by rw [clockKeys_eq])
  rw [offset, List.getElem?_drop] at found
  exact ⟨b, found, value⟩

/-- The head and its checksum stand at the front, the configuration area before the categories. -/
theorem bytes_split :
    (∃ rest, parts.bytes = parts.head ++ crc8 parts.head :: rest) ∧
      ∃ count, parts.bytes =
        parts.config ++ parts.content ++ List.replicate count 0xff := by
  obtain ⟨-, -, -, count, bytes⟩ := fillImage_ok parts.filled
  obtain ⟨rest, config⟩ := config_head parts.headPacked parts.configPacked
  refine ⟨⟨0 :: (rest ++ parts.content ++ List.replicate count 0xff), ?_⟩, count, bytes⟩
  rw [bytes, config]
  simp

theorem lengths : parts.head.length = 14 ∧ parts.config.length = 128 :=
  ⟨length_packLayout parts.headPacked, length_packLayout parts.configPacked⟩

theorem head_bytes : parts.bytes.take 14 = parts.head := by
  obtain ⟨⟨rest, bytes⟩, -⟩ := parts.bytes_split
  rw [bytes, ← parts.lengths.1, List.take_left]

theorem bootstrap_bytes :
    (parts.bytes.drop 0x28).take 8 = (parts.config.drop 0x28).take 8 := by
  obtain ⟨-, count, bytes⟩ := parts.bytes_split
  have length := parts.lengths.2
  rw [bytes, List.append_assoc, List.drop_append_of_le_length (by omega),
    List.take_append_of_le_length (by rw [List.length_drop]; omega)]

theorem headPublished : HexPublished parts.image "config_data" (parts.bytes.take 14) := by
  refine ⟨Bytes.hexUpper parts.head, ?_, ?_⟩
  · simp [image, listed, Settings.get?_insert]
  · rw [parts.head_bytes, Bytes.readHex_hexUpper]

theorem bootstrapPublished :
    HexPublished parts.image "bootstrap" ((parts.bytes.drop 0x28).take 8) := by
  refine ⟨Bytes.hexUpper ((parts.config.drop 0x28).take 8), ?_, ?_⟩
  · simp [image, listed, Settings.get?_insert]
  · rw [parts.bootstrap_bytes, Bytes.readHex_hexUpper]

theorem initializerPublished : ∃ text count,
    parts.image.published.get? "sii_eeprom_initializer" = some (.str text) ∧
      Bytes.readCells text.toList =
        some (parts.bytes.map UInt8.toNat ++ List.replicate count 0) ∧
      count < 16 ∧ (parts.bytes.length + count) % 16 = 0 := by
  have more : parts.bytes ≠ [] := by
    obtain ⟨⟨rest, bytes⟩, -⟩ := parts.bytes_split
    simp [bytes]
  refine ⟨Bytes.initializer parts.bytes, Bytes.fillCount parts.bytes.length, ?_,
    Bytes.readCells_initializer more, Bytes.fillCount_line _⟩
  simp [image, listed, Settings.get?_insert]

theorem checksumPublished : BytePublished parts.image parts.bytes 14 "sii.checksum" := by
  obtain ⟨⟨rest, bytes⟩, -⟩ := parts.bytes_split
  have isPlace : "sii.checksum" ∈ placeKeys := List.mem_append_left _ List.mem_cons_self
  refine ⟨crc8 parts.head, ?_, ?_⟩
  · rw [bytes, ← parts.lengths.1]
    simp
  · rw [parts.get?_published isPlace, nameKeys_checksum parts.collects]
    rfl

end Parts

/-- What an image publishes agrees with its strings and its bytes. -/
theorem build_publishes {s : Settings} {image : Image} (made : build s = .ok image) :
    ∃ data, Publishes s image data := by
  obtain ⟨parts, rfl⟩ := build_ok_iff.mp made
  obtain ⟨data, reads, good, blocks⟩ := allCategories_ok parts.written
  rw [parts.agree.blocks_eq] at good blocks
  use data
  constructor
  case names =>
    intro keys member
    exact parts.placePublished (List.mem_append_left _ member)
  case clockNames =>
    intro supported unit few named
    have published := parts.placePublished (clockKeys_asked few supported named)
    rwa [clockKeys_eq] at published
  case categories =>
    obtain ⟨-, count, bytes⟩ := parts.bytes_split
    have written := categories_ended parts.lengths.2 (fun block member => (good block member).1)
      blocks (ended_replicate count)
    rw [map_evenLength fun block member => (good block member).2, ← bytes] at written
    exact written
  case general =>
    intro i key here
    exact parts.generalPublished reads.generalLength reads.general here
  case clocks =>
    obtain ⟨units, ascending, named, length, each⟩ := reads.clocks
    have given := fun unit => (named unit).trans (parts.agree.clock_iff unit)
    refine ⟨units, ascending, given, length, ?_⟩
    intro i unit here
    obtain ⟨few, supported, on⟩ := (given unit).mp (List.mem_of_getElem? here)
    have published := parts.clockPublished length here (each i unit here)
      (clockKeys_asked few supported (Settings.ne_none_of_flag on))
    rwa [clockKeys_eq] at published
  case head => exact parts.headPublished
  case bootstrap => exact parts.bootstrapPublished
  case checksum => exact parts.checksumPublished
  case initializer => exact parts.initializerPublished

theorem build_publishes_sample :
    ∃ image data, build sampleSettings = .ok image ∧ Publishes sampleSettings image data ∧
      image.strings = ["Drive", "Sync"] ∧ image.published.get? "DEVICE_IDX" = some (.int 1) ∧
      image.published.get? "TYPE_IDX" = some (.int 0) ∧
      image.published.get? "dc1.name_idx" = some (.int 2) := by
  have shown : (build sampleSettings).toOption.map (fun image =>
      (image.strings, image.published.get? "DEVICE_IDX", image.published.get? "TYPE_IDX",
        image.published.get? "dc1.name_idx")) =
      some (["Drive", "Sync"], some (.int 1), some (.int 0), some (.int 2)) := by
    decide +kernel
  obtain ⟨image, made, shown⟩ := Except.exists_ok_of_shown shown
  obtain ⟨data, publishes⟩ := build_publishes made
  simp only [Prod.mk.injEq] at shown
  exact ⟨image, data, made, publishes, shown⟩

end EcatDevice.Eeprom
