import EcatDevice.Proofs.CategoryContent

/-! # The parts of an image

While the names of an image are collected, the settings that later parts read are always the given
ones with the published ones over them. So collecting is a walk over the names that the given
settings ask for, and an image is made of parts that each follow from those before. What is
published for a name is its place among the strings.
-/

namespace EcatDevice.Eeprom

/-! ## Keys that the image fixes -/

def placeKeys : List String :=
  "sii.checksum" :: namedStrings.map Prod.snd ++
    (List.range unitCount).map fun unit => unitLead "dc" unit ++ "name" ++ "_idx"

/-- All keys but those that the image fixes have one value in both. -/
def Agree (s other : Settings) : Prop :=
  ∀ key, key ∉ placeKeys → other.get? key = s.get? key

theorem Agree.flag {s other : Settings} (agree : Agree s other) {key : String}
    (free : key ∉ placeKeys) : other.flag key = s.flag key :=
  Settings.flag_congr (agree key free)

theorem switches_free : "DC_SUPPORTED" ∉ placeKeys ∧ ∀ unit < 8,
    unitLead "sm" unit ++ "enable" ∉ placeKeys ∧ unitLead "dc" unit ++ "name" ∉ placeKeys ∧
      unitLead "fmmu" unit ++ "mode" ∉ placeKeys := by
  decide

/-! ## Keys of names -/

/-- The keys of the name of a clock unit and of its place. -/
def clockKeys (unit : Nat) : String × String :=
  (unitLead "dc" unit ++ "name", unitLead "dc" unit ++ "name" ++ "_idx")

/-- The keys of all names that an image can have, and of their places. -/
def allNameKeys : List (String × String) :=
  namedStrings ++ (List.range unitCount).map clockKeys

/-- The names that settings ask for, in their order. -/
def nameKeys (s : Settings) : List (String × String) :=
  namedStrings ++
    if s.flag "DC_SUPPORTED" then
      ((List.range unitCount).map clockKeys).filter fun keys => s.contains keys.1
    else []

theorem nameKeys_sublist (s : Settings) : (nameKeys s).Sublist allNameKeys := by
  apply List.Sublist.append (.refl namedStrings)
  split
  · exact List.filter_sublist
  · exact List.nil_sublist _

theorem allNameKeys_distinct : (allNameKeys.map Prod.snd).Nodup := by
  decide

theorem nameKeys_distinct (s : Settings) : ((nameKeys s).map Prod.snd).Nodup :=
  allNameKeys_distinct.sublist ((nameKeys_sublist s).map Prod.snd)

/-- Places are keys that the image fixes, and names are not. -/
theorem allNameKeys_apart : ∀ keys ∈ allNameKeys, keys.1 ∉ placeKeys ∧ keys.2 ∈ placeKeys := by
  decide

theorem clockKeys_mem {unit : Nat} (few : unit < unitCount) : clockKeys unit ∈ allNameKeys :=
  List.mem_append_right _ (List.mem_map_of_mem (List.mem_range.mpr few))

theorem clockKeys_asked {s : Settings} {unit : Nat} (few : unit < unitCount)
    (supported : s.flag "DC_SUPPORTED" = true) (named : s.get? (clockKeys unit).1 ≠ none) :
    clockKeys unit ∈ nameKeys s := by
  apply List.mem_append_right
  rw [if_pos supported]
  apply List.mem_filter.mpr
  exact ⟨List.mem_map_of_mem (List.mem_range.mpr few), by
    rwa [Settings.contains_eq, Option.isSome_iff_ne_none]⟩

/-! ## Collecting names -/

/-- The strings that a key adds: its text, or nothing if it has no value. -/
def nameOf (s : Settings) (key : String) : Except Error (List String) :=
  if s.contains key then return [← s.str key] else return []

/-- Strings and published settings so far. -/
abbrev Found := List String × Settings

/-- Adds the string of a name and publishes its place. -/
def place (s : Settings) (found : Found) (keys : String × String) : Except Error Found := do
  let more ← nameOf s keys.1
  let strings := found.1 ++ more
  let j := if more.isEmpty then 0 else strings.length
  return (strings, found.2.insert keys.2 (.int (Int64.ofNat j)))

/-- The state of collecting that belongs to strings and published settings. -/
def collected (s : Settings) (found : Found) : Collected :=
  { strings := found.1, working := s.merge found.2, published := found.2 }

/-- Only keys that the image fixes are published. -/
def Fixes (published : Settings) : Prop :=
  ∀ key ∉ placeKeys, published.get? key = none

theorem Fixes.insert {published : Settings} (fixes : Fixes published) {key : String}
    (isPlace : key ∈ placeKeys) (value : Value) : Fixes (published.insert key value) := by
  intro other free
  rw [Settings.get?_insert, if_neg, fixes other free]
  rintro rfl
  exact free isPlace

theorem Fixes.agree {published : Settings} (fixes : Fixes published) (s : Settings) :
    Agree s (s.merge published) := by
  intro key free
  simp only [Settings.get?_merge, fixes key free, Option.none_or]

theorem merge_insert (s published : Settings) (key : String) (value : Value) :
    (s.merge published).insert key value = s.merge (published.insert key value) := by
  apply Settings.ext_get?
  intro other
  simp only [Settings.get?_insert, Settings.get?_merge]
  split <;> rfl

theorem addNamed_collected {s : Settings} {found : Found} {keys : String × String}
    (fixes : Fixes found.2) (free : keys.1 ∉ placeKeys) :
    (collected s found).addNamed keys = collected s <$> place s found keys := by
  have same := fixes.agree s keys.1 free
  have given : (collected s found).working = s.merge found.2 := rfl
  simp only [Collected.addNamed, place, nameOf, Collected.add, given, Settings.contains_eq,
    Settings.str, same]
  cases s.get? keys.1 with
  | none => simp [collected, Collected.publish, merge_insert, bind, Except.bind, pure, Except.pure]
  | some value =>
      cases value <;>
        simp [collected, Collected.publish, merge_insert, bind, Except.bind, pure, Except.pure]

theorem place_fixes {s : Settings} {found next : Found} {keys : String × String}
    (fixes : Fixes found.2) (isPlace : keys.2 ∈ placeKeys) (made : place s found keys = .ok next) :
    Fixes next.2 := by
  obtain ⟨more, -, made⟩ := Except.bind_eq_ok made
  cases made
  exact fixes.insert isPlace _

theorem foldlM_addNamed {s : Settings} {pairs : List (String × String)}
    (apart : ∀ keys ∈ pairs, keys.1 ∉ placeKeys ∧ keys.2 ∈ placeKeys) {found : Found}
    (fixes : Fixes found.2) :
    pairs.foldlM Collected.addNamed (collected s found) =
      collected s <$> pairs.foldlM (place s) found := by
  induction pairs generalizing found with
  | nil => rfl
  | cons keys pairs ih =>
      obtain ⟨here, later⟩ := List.forall_mem_cons.mp apart
      simp only [List.foldlM_cons, addNamed_collected fixes here.1]
      cases made : place s found keys with
      | error e => rfl
      | ok next => exact ih later (place_fixes fixes here.2 made)

theorem addClock_eq (c : Collected) (unit : Nat) :
    c.addClock unit =
      if c.working.contains (clockKeys unit).1 then c.addNamed (clockKeys unit) else .ok c := by
  by_cases present : c.working.contains (clockKeys unit).1
  · simp only [Collected.addNamed, present, if_true]
    exact if_pos present
  · simp only [present]
    exact if_neg present

theorem foldlM_addClock {s : Settings} {units : List Nat} (few : ∀ unit ∈ units, unit < unitCount)
    {found : Found} (fixes : Fixes found.2) :
    units.foldlM Collected.addClock (collected s found) =
      collected s <$> ((units.map clockKeys).filter fun keys => s.contains keys.1).foldlM
        (place s) found := by
  induction units generalizing found with
  | nil => rfl
  | cons unit units ih =>
      obtain ⟨here, later⟩ := List.forall_mem_cons.mp few
      have apart := allNameKeys_apart _ (clockKeys_mem here)
      have same : (collected s found).working.contains (clockKeys unit).1 =
          s.contains (clockKeys unit).1 := by
        simp only [Settings.contains_eq]
        exact congrArg Option.isSome (fixes.agree s _ apart.1)
      simp only [List.foldlM_cons, List.map_cons, List.filter_cons, addClock_eq, same]
      split
      · simp only [List.foldlM_cons, addNamed_collected fixes apart.1]
        cases made : place s found (clockKeys unit) with
        | error e => rfl
        | ok next => exact ih later (place_fixes fixes apart.2 made)
      · exact ih later fixes

theorem foldlM_place_fixes {s : Settings} {pairs : List (String × String)} {found next : Found}
    (places : ∀ keys ∈ pairs, keys.2 ∈ placeKeys) (fixes : Fixes found.2)
    (made : pairs.foldlM (place s) found = .ok next) : Fixes next.2 := by
  refine foldlM_keeps (P := fun found : Found => Fixes found.2) ?_ fixes made
  intro found keys next member fixes
  exact place_fixes fixes (places keys member)

/-- Collecting is a walk over the names that the given settings ask for. -/
theorem addAll_collected {s : Settings} {found : Found} (fixes : Fixes found.2) :
    (collected s found).addAll = collected s <$> (nameKeys s).foldlM (place s) found := by
  have apart : ∀ keys ∈ namedStrings, keys.1 ∉ placeKeys ∧ keys.2 ∈ placeKeys :=
    fun keys member => allNameKeys_apart keys (List.mem_append_left _ member)
  simp only [Collected.addAll, nameKeys, List.foldlM_append, foldlM_addNamed apart fixes]
  cases made : namedStrings.foldlM (place s) found with
  | error e => rfl
  | ok next =>
      have nextFixes : Fixes next.2 :=
        foldlM_place_fixes (fun keys member => (apart keys member).2) fixes made
      have same : (collected s next).working.flag "DC_SUPPORTED" = s.flag "DC_SUPPORTED" :=
        (nextFixes.agree s).flag switches_free.1
      simp only [Functor.map, Except.map, bind, Except.bind, same]
      split
      · exact foldlM_addClock (fun unit => List.mem_range.mp) nextFixes
      · rfl

/-! ## Places -/

/-- The name of a key stands at place `j` among the strings, counted from one; the place of a
missing name is zero. -/
def Placed (s : Settings) (strings : List String) (key : String) (j : Nat) : Prop :=
  s.get? key = none ∧ j = 0 ∨
    ∃ text i, s.get? key = some (.str text) ∧ strings[i]? = some text ∧ j = i + 1

theorem Placed.mono {s : Settings} {strings more : List String} {key : String} {j : Nat}
    (placed : Placed s strings key j) (grown : strings <+: more) : Placed s more key j := by
  rcases placed with missing | ⟨text, i, found, here, at_⟩
  · exact .inl missing
  · obtain ⟨rest, rfl⟩ := grown
    have inside := (List.getElem?_eq_some_iff.mp here).1
    exact .inr ⟨text, i, found, by rw [List.getElem?_append_left inside, here], at_⟩

theorem Placed.le_length {s : Settings} {strings : List String} {key : String} {j : Nat}
    (placed : Placed s strings key j) : j ≤ strings.length := by
  rcases placed with ⟨-, rfl⟩ | ⟨text, i, -, here, rfl⟩
  · exact Nat.zero_le _
  · exact (List.getElem?_eq_some_iff.mp here).1

theorem place_ok {s : Settings} {found next : Found} {keys : String × String}
    (made : place s found keys = .ok next) :
    ∃ j, found.1 <+: next.1 ∧ next.2 = found.2.insert keys.2 (.int (Int64.ofNat j)) ∧
      Placed s next.1 keys.1 j := by
  obtain ⟨more, given, made⟩ := Except.bind_eq_ok made
  cases made
  refine ⟨_, List.prefix_append _ _, rfl, ?_⟩
  simp only [nameOf, Settings.contains_eq, Settings.str] at given
  cases name : s.get? keys.1 with
  | none =>
      simp [name] at given
      cases given
      exact .inl ⟨name, rfl⟩
  | some value =>
      cases value with
      | str text =>
          simp [name] at given
          cases given
          exact .inr ⟨text, found.1.length, name, by simp, by simp⟩
      | int n => simp [name] at given
      | real x => simp [name] at given

/-- A walk only adds strings, and what it publishes for a name stays. -/
theorem foldlM_place {s : Settings} {pairs : List (String × String)} {found next : Found}
    (distinct : (pairs.map Prod.snd).Nodup) (made : pairs.foldlM (place s) found = .ok next) :
    found.1 <+: next.1 ∧ (∀ key ∉ pairs.map Prod.snd, next.2.get? key = found.2.get? key) ∧
      ∀ keys ∈ pairs, ∃ j, next.2.get? keys.2 = some (.int (Int64.ofNat j)) ∧
        Placed s next.1 keys.1 j := by
  induction pairs generalizing found with
  | nil =>
      cases made
      exact ⟨List.prefix_refl _, fun _ _ => rfl, by simp⟩
  | cons keys pairs ih =>
      simp only [List.map_cons, List.nodup_cons] at distinct
      rw [List.foldlM_cons] at made
      obtain ⟨one, first, made⟩ := Except.bind_eq_ok made
      obtain ⟨j, grown, published, placed⟩ := place_ok first
      obtain ⟨longer, kept, others⟩ := ih distinct.2 made
      have here : one.2.get? keys.2 = some (.int (Int64.ofNat j)) := by
        simp [published, Settings.get?_insert]
      refine ⟨grown.trans longer, ?_, ?_⟩
      · intro key absent
        simp only [List.map_cons, List.mem_cons, not_or] at absent
        rw [kept key absent.2, published, Settings.get?_insert, if_neg (Ne.symm absent.1)]
      · intro asked member
        rcases List.mem_cons.mp member with rfl | behind
        · exact ⟨j, (kept _ distinct.1).trans here, placed.mono longer⟩
        · exact others asked behind

/-! ## Parts -/

/-- The value that the checksum of a head is published as. -/
def checksumValue (head : Bytes) : Value :=
  .int (Int64.ofNat (crc8 head).toNat)

/-- What is published before names are collected. -/
def firstFound (head : Bytes) : Found :=
  ([], Settings.empty.insert "sii.checksum" (checksumValue head))

/-- Published settings together with the listings of bytes. -/
def listed (published : Settings) (head config bytes : Bytes) : Settings :=
  published
    |>.insert "config_data" (.str (Bytes.hexUpper head))
    |>.insert "bootstrap" (.str (Bytes.hexUpper ((config.drop 0x28).take 8)))
    |>.insert "sii_eeprom_initializer" (.str (Bytes.initializer bytes))

/-- The keys of the listings. -/
def listingKeys : List String :=
  ["config_data", "bootstrap", "sii_eeprom_initializer"]

theorem get?_listed {key : String} (unlisted : key ∉ listingKeys) (published : Settings)
    (head config bytes : Bytes) :
    (listed published head config bytes).get? key = published.get? key := by
  simp only [listingKeys, List.mem_cons, List.not_mem_nil, or_false, not_or] at unlisted
  simp only [listed, Settings.get?_insert, Ne.symm unlisted.1, Ne.symm unlisted.2.1,
    Ne.symm unlisted.2.2, if_false]

/-- Listings are kept apart from what the image fixes while it is built. -/
theorem placeKeys_unlisted : ∀ key ∈ placeKeys, key ∉ listingKeys := by
  decide

/-- The parts that an image is made of, each from those before it. -/
structure Parts (s : Settings) where
  head : Bytes
  config : Bytes
  found : Found
  content : Bytes
  bytes : Bytes
  headPacked : packLayout s "" headSlots = .ok head
  configPacked : packLayout (s.insert "sii.checksum" (checksumValue head)) "" configSlots =
    .ok config
  collects : (nameKeys s).foldlM (place s) (firstFound head) = .ok found
  written : allCategories (s.merge found.2) found.1 = .ok content
  filled : fillImage (s.merge found.2) (config ++ content) = .ok bytes

/-- The image that is made of the parts. -/
def Parts.image {s : Settings} (parts : Parts s) : Image where
  bytes := parts.bytes
  checksum := crc8 parts.head
  strings := parts.found.1
  published := listed parts.found.2 parts.head parts.config parts.bytes

theorem firstFound_fixes (head : Bytes) : Fixes (firstFound head).2 := by
  apply Fixes.insert
  · intro key _
    exact Settings.get?_empty key
  · exact List.mem_append_left _ List.mem_cons_self

theorem publish_checksum (s : Settings) (head : Bytes) :
    Collected.publish { strings := [], working := s, published := Settings.empty }
        "sii.checksum" (.int (Int64.ofNat (crc8 head).toNat)) = collected s (firstFound head) := by
  have none : s.merge Settings.empty = s := by
    apply Settings.ext_get?
    intro key
    simp [Settings.get?_merge, Settings.get?_empty]
  simp only [Collected.publish, collected, firstFound, checksumValue, ← merge_insert, none]

theorem build_eq (s : Settings) :
    build s = do
      let head ← packLayout s "" headSlots
      let config ← packLayout (s.insert "sii.checksum" (checksumValue head)) "" configSlots
      let found ← (nameKeys s).foldlM (place s) (firstFound head)
      let content ← allCategories (s.merge found.2) found.1
      let bytes ← fillImage (s.merge found.2) (config ++ content)
      return {
        bytes, checksum := crc8 head, strings := found.1
        published := listed found.2 head config bytes } := by
  unfold build
  congr 1
  funext head
  dsimp only
  congr 1
  funext config
  rw [publish_checksum, addAll_collected (firstFound_fixes head)]
  cases (nameKeys s).foldlM (place s) (firstFound head) <;> rfl

/-- An image is built just from its parts. -/
theorem build_ok_iff {s : Settings} {image : Image} :
    build s = .ok image ↔ ∃ parts : Parts s, parts.image = image := by
  rw [build_eq]
  constructor
  · intro made
    obtain ⟨head, headPacked, made⟩ := Except.bind_eq_ok made
    obtain ⟨config, configPacked, made⟩ := Except.bind_eq_ok made
    obtain ⟨found, collects, made⟩ := Except.bind_eq_ok made
    obtain ⟨content, written, made⟩ := Except.bind_eq_ok made
    obtain ⟨bytes, filled, made⟩ := Except.bind_eq_ok made
    exact ⟨⟨head, config, found, content, bytes, headPacked, configPacked, collects, written,
      filled⟩, Except.ok.inj made⟩
  · rintro ⟨parts, rfl⟩
    simp only [parts.headPacked, parts.configPacked, parts.collects, parts.written, parts.filled,
      bind, Except.bind]
    rfl

/-! ## What the names of an image publish -/

section
variable {s : Settings} {head : Bytes} {found : Found}
  (collects : (nameKeys s).foldlM (place s) (firstFound head) = .ok found)
include collects

theorem nameKeys_fixes : Fixes found.2 := by
  apply foldlM_place_fixes _ (firstFound_fixes head) collects
  intro keys member
  exact (allNameKeys_apart keys ((nameKeys_sublist s).subset member)).2

theorem nameKeys_placed {keys : String × String} (asked : keys ∈ nameKeys s) :
    ∃ j, found.2.get? keys.2 = some (.int (Int64.ofNat j)) ∧ Placed s found.1 keys.1 j :=
  (foldlM_place (nameKeys_distinct s) collects).2.2 keys asked

theorem nameKeys_checksum : found.2.get? "sii.checksum" = some (checksumValue head) := by
  have apart : "sii.checksum" ∉ allNameKeys.map Prod.snd := by decide
  have absent : "sii.checksum" ∉ (nameKeys s).map Prod.snd := fun member =>
    apart (((nameKeys_sublist s).map Prod.snd).subset member)
  rw [(foldlM_place (nameKeys_distinct s) collects).2.1 _ absent]
  simp [firstFound, Settings.get?_insert]

end

namespace Parts
variable {s : Settings} (parts : Parts s)

theorem fixes : Fixes parts.found.2 :=
  nameKeys_fixes parts.collects

theorem agree : Agree s (s.merge parts.found.2) :=
  parts.fixes.agree s

theorem get?_published {key : String} (isPlace : key ∈ placeKeys) :
    parts.image.published.get? key = parts.found.2.get? key :=
  get?_listed (placeKeys_unlisted key isPlace) _ _ _ _

end Parts

end EcatDevice.Eeprom
