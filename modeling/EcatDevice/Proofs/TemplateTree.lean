import EcatDevice.Proofs.MapSynthesis
import EcatDevice.Proofs.TransferSteps
import EcatDevice.Template
import Mathlib

/-! # The tree for source templates

The tree exists unless a free key is called like a fixed one, an array has elements of a bit field
type, or a mapping object cannot be read; nothing else fails. It then shows every object of the
dictionary in order and has no key twice. The part of a mapping object shows the sub-objects it
refers to in order, and their code, put together, is that of the whole transfer sequence.
-/

namespace EcatDevice

/-! ## Trees -/

namespace Json

/-- The first member with a key. -/
def member? (json : Json) (key : String) : Option Json :=
  match json with
  | .obj members => members.lookup key
  | _ => none

/-- No object in the tree has a key twice. -/
inductive DistinctKeys : Json → Prop where
  | null : DistinctKeys .null
  | bool (b : Bool) : DistinctKeys (.bool b)
  | int (n : Int) : DistinctKeys (.int n)
  | real (x : Real64) : DistinctKeys (.real x)
  | str (s : String) : DistinctKeys (.str s)
  | arr {items : List Json} : (∀ item ∈ items, DistinctKeys item) → DistinctKeys (.arr items)
  | obj {members : List (String × Json)} : (members.map Prod.fst).Nodup →
      (∀ member ∈ members, DistinctKeys member.2) → DistinctKeys (.obj members)

attribute [simp] DistinctKeys.null DistinctKeys.bool DistinctKeys.int DistinctKeys.real
  DistinctKeys.str

end Json

@[simp] theorem Value.toJson_distinctKeys (value : Value) : value.toJson.DistinctKeys := by
  cases value <;> simp [toJson]

/-! ## Objects of reachable dictionaries -/

namespace Dictionary

/-- What built objects have in common, marks aside, all objects of a reachable dictionary have. -/
theorem Reachable.all_objects {P : Object → Prop} (stable : ∀ o : Object, P o.unmarked ↔ P o)
    (good : ∀ o : Object, o.Built → P o) {d : Dictionary} (reachable : Reachable d) :
    ∀ o ∈ d.objects, P o := by
  induction reachable with
  | start start =>
      exact start.changes.all_objects stable (fun o accepted => good o accepted.1)
        (List.forall_mem_nil _)
  | insert _ built _ made ih =>
      have change : Change Object.Built _ _ := .insert built made
      exact change.all_objects stable good ih
  | synthesize _ made ih =>
      exact (synthesizeMap_changes made).all_objects stable (fun o accepted => good o accepted.1) ih

/-- Whatever a mapping object refers to is found by its own reference, marked or not. -/
theorem Reachable.maps_entries {d : Dictionary} (reachable : Reachable d) {map : Object}
    {entries : List SubObject} (read : d.mapEntries map = .ok entries) :
    ∀ sub ∈ entries, d.Maps Access.empty sub := by
  obtain ⟨formed, typed⟩ := reachable.sound
  intro sub member
  obtain ⟨reference, -, -, found⟩ := (mem_mapEntries read).mp member
  obtain ⟨o, object, place⟩ := Option.bind_eq_some_iff.mp found
  have inside := (mem_of_get? object).1
  have part := (Object.mem_of_sub? place).1
  exact ⟨find?_reference formed inside part, typed o inside sub part,
    by simp [Access.contains, Access.empty]⟩

end Dictionary

namespace Object

/-- The elements of an array have one type, and names without a colon. -/
def Uniform (o : Object) : Prop :=
  o.kind = .array →
    ∃ t : BasicType, ∀ sub ∈ o.payload, sub.basicType = t ∧ ':' ∉ sub.symbol.toList

theorem uniform_unmarked (o : Object) : o.unmarked.Uniform ↔ o.Uniform := by
  have kind : o.unmarked.kind = o.kind := rfl
  simp only [Uniform, payload_unmarked, kind, List.forall_mem_map]
  rfl

theorem colon_notMem_element (index : UInt16) (access : Access) (t : BasicType) (position : Nat)
    (value : Value) : ':' ∉ (element index access t position value).symbol.toList := by
  have digits : ':' ∉ Nat.toDigits 10 position := fun member => by
    simpa using Nat.isDigit_of_mem_toDigits (by decide) (by decide) member
  have positive : ¬(position : Int) < 0 := by omega
  simp [element, Text.decimal, positive, digits]

theorem Built.uniform {o : Object} (built : o.Built) : o.Uniform := by
  intro kind
  cases built with
  | single => cases kind
  | record properties made =>
      rw [(record_subs made).2.1] at kind
      cases kind
  | @array index _ _ access t _ _ o properties made =>
      obtain ⟨filled, -, kind, -, subs⟩ := array_subs made
      refine ⟨t, ?_⟩
      simp only [payload, kind, subs, List.drop_one, List.tail_cons]
      intro sub member
      obtain ⟨i, _, rfl⟩ := List.mem_mapIdx.mp member
      exact ⟨rfl, colon_notMem_element _ _ _ _ _⟩

/-- The index is one of mapping objects. -/
def IsMapping (o : Object) : Prop :=
  ∃ direction : Direction, direction.Covers o.index

theorem isNone_direction? (o : Object) : o.direction?.isNone = true ↔ ¬o.IsMapping := by
  simp [IsMapping, ← Direction.ofMapIndex?_eq_some, direction?, Option.eq_none_iff_forall_ne_some]

end Object

/-- The names of the types that are stored in bit fields. -/
def BasicType.bitFieldNames : List String :=
  ["PAD1", "PAD2", "PAD3", "PAD4", "PAD5", "PAD6", "PAD7", "PAD8", "BOOL", "BIT2", "BIT3"]

theorem BasicType.colon_mem_declaration : ∀ t ∈ catalog,
    (':' ∈ t.declaration.before.toList ∨ ':' ∈ t.declaration.after.toList) ↔
      t.name ∈ bitFieldNames := by
  decide

theorem SubObject.colon_mem_ctype {sub : SubObject} (listed : sub.basicType ∈ BasicType.catalog)
    (plain : ':' ∉ sub.symbol.toList) :
    ':' ∈ sub.ctype.toList ↔ sub.basicType.name ∈ BasicType.bitFieldNames := by
  rw [← BasicType.colon_mem_declaration _ listed]
  simp [ctype, CDeclaration.fill, plain]

namespace Template

open ProcessData

/-! ## Keys -/

theorem checkKeys_ok_iff {free : ValueMap} {fixed : List String} (what : String) :
    checkKeys free fixed what = .ok () ↔ ∀ key ∈ fixed, key ∉ free := by
  unfold checkKeys
  rw [Std.ExtTreeMap.map_fst_toList_eq_keys]
  split
  · next key found =>
      have present := Std.ExtTreeMap.mem_keys.mp (List.mem_of_find?_eq_some found)
      have clash : key ∈ fixed := by simpa using List.find?_some found
      simp only [reduceCtorEq, false_iff, not_forall, not_not]
      exact ⟨key, clash, present⟩
  · next none =>
      simp only [List.find?_eq_none, List.contains_iff_mem, Std.ExtTreeMap.mem_keys] at none
      simp only [true_iff]
      exact fun key clash present => none key present clash

theorem freeMembers_keys (free : ValueMap) : (freeMembers free).map Prod.fst = free.keys := by
  simp [freeMembers, ← Std.ExtTreeMap.map_fst_toList_eq_keys, Function.comp_def]

theorem freeMembers_distinctKeys (free : ValueMap) :
    ∀ member ∈ freeMembers free, member.2.DistinctKeys := by
  intro member inside
  obtain ⟨entry, -, rfl⟩ := List.mem_map.mp inside
  exact entry.2.toJson_distinctKeys

/-- Free keys that are no fixed ones stand beside these without a clash. -/
theorem members_nodup {free : ValueMap} {fixed : List (String × Json)}
    (distinct : (fixed.map Prod.fst).Nodup) (apart : ∀ key ∈ fixed.map Prod.fst, key ∉ free) :
    ((freeMembers free ++ fixed).map Prod.fst).Nodup := by
  rw [List.map_append, freeMembers_keys, List.nodup_append]
  refine ⟨Std.ExtTreeMap.nodup_keys, distinct, ?_⟩
  rintro key present _ clash rfl
  exact apart key clash (Std.ExtTreeMap.mem_keys.mp present)

theorem member?_fixed {free : ValueMap} {key : String} (absent : key ∉ free)
    (fixed : List (String × Json)) :
    (Json.obj (freeMembers free ++ fixed)).member? key = fixed.lookup key := by
  have none : (freeMembers free).lookup key = none := by
    rw [List.lookup_eq_none_iff]
    intro member inside
    have present : member.1 ∈ free := by
      rw [← Std.ExtTreeMap.mem_keys, ← freeMembers_keys]
      exact List.mem_map_of_mem inside
    simp only [bne_iff_ne, ne_eq]
    rintro rfl
    exact absent present
  simp [Json.member?, List.lookup_append, none]

/-! ## Sub-objects -/

theorem subTree_distinctKeys (sub : SubObject) (ctype : String) :
    (subTree sub ctype).DistinctKeys := by
  apply Json.DistinctKeys.obj <;> simp

theorem subTrees_distinctKeys {o : Object} {trees : List Json} (made : subTrees o = .ok trees) :
    ∀ tree ∈ trees, tree.DistinctKeys := by
  unfold subTrees at made
  split at made
  · obtain ⟨ctype, -, made⟩ := Except.bind_eq_ok made
    cases made
    simp [subTree_distinctKeys]
  · cases made
    simp [subTree_distinctKeys]

theorem elementsType_ok_iff {o : Object} {element : SubObject} :
    (∃ ctype, elementsType o element = .ok ctype) ↔ ':' ∉ element.ctype.toList := by
  by_cases colon : ':' ∈ element.ctype.toList <;> simp [elementsType, colon]

/-- The sub-objects are shown unless they are bit fields in an array. -/
theorem subTrees_ok_iff {o : Object} (typed : o.Typed) (uniform : o.Uniform) :
    (∃ trees, subTrees o = .ok trees) ↔
      (o.kind = .array → ∀ sub ∈ o.payload, sub.basicType.name ∉ BasicType.bitFieldNames) := by
  unfold subTrees
  split
  · next count element rest kind subs =>
      obtain ⟨t, same⟩ := uniform kind
      have payload : o.payload = element :: rest := by simp [Object.payload, kind, subs]
      rw [payload] at same ⊢
      obtain ⟨type, plain⟩ := same element List.mem_cons_self
      have listed : element.basicType ∈ BasicType.catalog := typed element (by simp [subs])
      have shown : (∃ trees, (do
          return [subTree count count.ctype, subTree element (← elementsType o element)]) =
            Except.ok trees) ↔ ∃ ctype, elementsType o element = .ok ctype := by
        cases elementsType o element <;> simp [bind, Except.bind, pure, Except.pure]
      rw [shown, elementsType_ok_iff, SubObject.colon_mem_ctype listed plain, type]
      constructor
      · intro fits _ sub member
        rwa [(same sub member).1]
      · intro fits
        have first := fits kind element List.mem_cons_self
        rwa [type] at first
  · next other =>
      simp only [Except.ok.injEq, exists_eq', true_iff]
      intro kind sub member
      simp only [Object.payload, kind] at member
      cases subs : o.subs with
      | nil => simp [subs] at member
      | cons count rest =>
          cases rest with
          | nil => simp [subs] at member
          | cons element rest => exact absurd subs (other count element rest kind)

/-! ## Mapped sub-objects -/

/-- The tree of a mapped sub-object shows it, with the code of the steps that transfer it. -/
structure ShowsMapped (d : Dictionary) (sub : SubObject) (packed : PackedField) (item : Json) :
    Prop where
  field : fieldOf d sub = .ok packed.field
  subindex : item.member? "subindex" = some (.int sub.subindex.toNat)
  symbol : item.member? "subsymbol" = some (.str sub.symbol)
  default : item.member? "default" = some sub.default.toJson
  collect : item.member? "tx_pdo_code" =
    some (.str (String.intercalate codeSeparator packed.collectCode))
  scatter : item.member? "rx_pdo_code" =
    some (.str (String.intercalate codeSeparator packed.scatterCode))

/-- The trees of mapped sub-objects show these in order. Their texts, put together, are the code of
all steps of the telegram, with the one that closes it where the fields do not fill whole bytes. -/
structure ShowsTelegram (d : Dictionary) (entries : List SubObject) (packing : Packing)
    (items : List Json) : Prop where
  length : items.length = entries.length
  each : ∀ (k : Nat) (sub : SubObject) (item : Json), entries[k]? = some sub →
    items[k]? = some item →
    ∃ packed, packing.fields[k]? = some packed ∧ ShowsMapped d sub packed item
  collect : ∃ texts, items.map (·.member? "tx_pdo_code") = texts.map (some <| .str ·) ∧
    String.intercalate codeSeparator texts =
      String.intercalate codeSeparator (packing.lines Op.collectCode)
  scatter : ∃ texts, items.map (·.member? "rx_pdo_code") = texts.map (some <| .str ·) ∧
    String.intercalate codeSeparator texts =
      String.intercalate codeSeparator (packing.lines Op.scatterCode)
  closed : ∃ moves fields, entries.mapM (fieldOf d) = .ok fields ∧
    packing.sequence = moves ++ closing fields (endFrom 0 fields) ∧
    ∀ step ∈ moves, step.2 ≠ .align

theorem mappedTree_distinctKeys (sub : SubObject) (packed : PackedField) :
    (mappedTree sub packed).DistinctKeys := by
  apply Json.DistinctKeys.obj <;> simp

theorem mappedTrees_cases {d : Dictionary} {o : Object} {mapped : Json}
    (made : mappedTrees d o = .ok mapped) :
    (¬o.IsMapping ∧ mapped = .null) ∨
      (o.IsMapping ∧ ∃ entries packing, d.mapEntries o = .ok entries ∧ packMap d o = .ok packing ∧
        mapped = .arr (List.zipWith mappedTree entries packing.fields)) := by
  unfold mappedTrees at made
  split at made
  · next plain =>
      cases made
      exact .inl ⟨o.isNone_direction?.mp plain, rfl⟩
  · next mapping =>
      obtain ⟨entries, read, made⟩ := Except.bind_eq_ok made
      obtain ⟨packing, packed, made⟩ := Except.bind_eq_ok made
      cases made
      rw [o.isNone_direction?, not_not] at mapping
      exact .inr ⟨mapping, entries, packing, read, packed, rfl⟩

/-- Mapped sub-objects are shown if they can be read. -/
theorem mappedTrees_ok_iff {d : Dictionary} (reachable : d.Reachable) (o : Object) :
    (∃ mapped, mappedTrees d o = .ok mapped) ↔
      (o.IsMapping → ∃ entries, d.mapEntries o = .ok entries) := by
  constructor
  · rintro ⟨mapped, made⟩ mapping
    rcases mappedTrees_cases made with ⟨plain, -⟩ | ⟨-, entries, packing, read, -⟩
    · exact absurd mapping plain
    · exact ⟨entries, read⟩
  · intro reads
    by_cases mapping : o.IsMapping
    · obtain ⟨entries, read⟩ := reads mapping
      obtain ⟨packing, packed⟩ := packMap_total read (reachable.maps_entries read)
      have some : ¬o.direction?.isNone = true := by rwa [o.isNone_direction?, not_not]
      exact ⟨_, by rw [mappedTrees, if_neg some, read, packed]; rfl⟩
    · exact ⟨.null, if_pos (o.isNone_direction?.mpr mapping)⟩

theorem mappedTrees_distinctKeys {d : Dictionary} {o : Object} {mapped : Json}
    (made : mappedTrees d o = .ok mapped) : mapped.DistinctKeys := by
  rcases mappedTrees_cases made with ⟨-, rfl⟩ | ⟨-, entries, packing, -, -, rfl⟩
  · exact .null
  · apply Json.DistinctKeys.arr
    intro item member
    obtain ⟨k, inside⟩ := List.mem_iff_getElem?.mp member
    obtain ⟨sub, packed, -, -, rfl⟩ := List.getElem?_zipWith_eq_some.mp inside
    exact mappedTree_distinctKeys sub packed

/-- Texts that depend on the packed fields alone stand in their order, one for each. -/
theorem mappedTree_texts {entries : List SubObject} {fields : List PackedField}
    (length : fields.length = entries.length) {key : String} {text : PackedField → String}
    (shown : ∀ sub packed, (mappedTree sub packed).member? key = some (.str (text packed))) :
    (List.zipWith mappedTree entries fields).map (·.member? key) =
      (fields.map text).map (some <| .str ·) := by
  have ordered := List.map_snd_zip length.le
  simp only [← List.map_uncurry_zip_eq_zipWith, List.map_map]
  conv_rhs => rw [← ordered]
  simp [Function.comp_def, Function.uncurry, shown]

/-- No sub-object is lost where the entries meet their code. -/
theorem showsTelegram {d : Dictionary} (reachable : d.Reachable) {map : Object}
    {entries : List SubObject} {packing : Packing} (read : d.mapEntries map = .ok entries)
    (packed : packMap d map = .ok packing) :
    ShowsTelegram d entries packing (List.zipWith mappedTree entries packing.fields) := by
  obtain ⟨fields, given, made⟩ := Except.bind_eq_ok packed
  obtain ⟨_, same, given⟩ := Except.bind_eq_ok given
  cases read.symm.trans same
  have own := mapM_forall₂ given
  have laid := (pack_laid made).fields
  have length : packing.fields.length = entries.length := by
    rw [own.length_eq, ← laid, List.length_map]
  have filled := pack_ops_ne_nil made (by
    intro field member
    obtain ⟨sub, present, found⟩ := mapM_mem given member
    rw [fieldOf_bits found]
    exact (BasicType.widths _ (reachable.maps_entries read sub present).typed).1)
  refine ⟨by simp [length], ?_, ?_, ?_, ?_⟩
  · intro k sub item place shown
    obtain ⟨_, p, here, there, rfl⟩ := List.getElem?_zipWith_eq_some.mp shown
    cases place.symm.trans here
    obtain ⟨field, found, listed⟩ := mapM_at given place
    rw [← laid, List.getElem?_map, there] at listed
    cases listed
    exact ⟨p, there, found, rfl, rfl, rfl, rfl, rfl⟩
  · exact ⟨_, mappedTree_texts length fun _ _ => rfl,
      Packing.intercalate_lines codeSeparator Op.collectCode_ne_nil filled⟩
  · exact ⟨_, mappedTree_texts length fun _ _ => rfl,
      Packing.intercalate_lines codeSeparator Op.scatterCode_ne_nil filled⟩
  · obtain ⟨moves, split, others⟩ := pack_closing made
    exact ⟨moves, fields, given, split, others⟩

/-! ## Objects -/

/-- The tree of an object shows it under its annotations and the fixed keys. Mapped sub-objects are
there just for a mapping object. -/
structure ShowsObject (d : Dictionary) (o : Object) (item : Json) : Prop where
  keys : ∃ members, item = .obj members ∧
    members.map Prod.fst = o.properties.keys ++ objectKeys
  index : item.member? "hex_index" = some (.str o.hexIndex)
  symbol : item.member? "symbol" = some (.str o.symbol)
  plain : ¬o.IsMapping → item.member? "mapped_subs" = some .null
  mapping : o.IsMapping → ∃ entries packing items,
    d.mapEntries o = .ok entries ∧ packMap d o = .ok packing ∧
      item.member? "mapped_subs" = some (.arr items) ∧ ShowsTelegram d entries packing items

theorem objectTree_ok_iff {d : Dictionary} (reachable : d.Reachable) {o : Object}
    (member : o ∈ d.objects) :
    (∃ item, objectTree d o = .ok item) ↔
      (∀ key ∈ objectKeys, key ∉ o.properties) ∧
      (o.kind = .array → ∀ sub ∈ o.payload, sub.basicType.name ∉ BasicType.bitFieldNames) ∧
      (o.IsMapping → ∃ entries, d.mapEntries o = .ok entries) := by
  have typed := reachable.sound.2 o member
  have uniform := reachable.all_objects Object.uniform_unmarked (fun _ => Object.Built.uniform)
    o member
  rw [← checkKeys_ok_iff ("property of " ++ o.symbol), ← subTrees_ok_iff typed uniform,
    ← mappedTrees_ok_iff reachable]
  unfold objectTree
  cases checkKeys o.properties objectKeys ("property of " ++ o.symbol) <;>
    cases subTrees o <;> cases mappedTrees d o <;>
      simp [bind, Except.bind, pure, Except.pure]

theorem objectTree_shows {d : Dictionary} (reachable : d.Reachable) {o : Object} {item : Json}
    (made : objectTree d o = .ok item) : ShowsObject d o item ∧ item.DistinctKeys := by
  obtain ⟨_, free, made⟩ := Except.bind_eq_ok made
  obtain ⟨subs, parts, made⟩ := Except.bind_eq_ok made
  obtain ⟨mapped, telegram, made⟩ := Except.bind_eq_ok made
  cases made
  replace free := (checkKeys_ok_iff _).mp free
  have subsDistinct := subTrees_distinctKeys parts
  have shown : ∀ key ∈ objectKeys, ∀ fixed : List (String × Json),
      (Json.obj (freeMembers o.properties ++ fixed)).member? key = fixed.lookup key :=
    fun key listed => member?_fixed (free key listed)
  refine ⟨⟨⟨_, rfl, ?_⟩, ?_, ?_, ?_, ?_⟩, .obj ?_ ?_⟩
  · simp [freeMembers_keys, objectKeys]
  · exact shown _ (by decide) _
  · exact shown _ (by decide) _
  · intro plain
    rw [shown _ (by decide)]
    rcases mappedTrees_cases telegram with ⟨-, rfl⟩ | ⟨mapping, -⟩
    · rfl
    · exact absurd mapping plain
  · intro mapping
    rw [shown _ (by decide)]
    rcases mappedTrees_cases telegram with ⟨plain, -⟩ | ⟨-, entries, packing, read, packed, rfl⟩
    · exact absurd mapping plain
    · exact ⟨entries, packing, _, read, packed, rfl, showsTelegram reachable read packed⟩
  · have distinct : objectKeys.Nodup := by decide
    exact members_nodup distinct free
  · have all := Json.DistinctKeys.arr subsDistinct
    have behind : (Json.arr subs.tail).DistinctKeys :=
      .arr fun sub inside => subsDistinct sub (List.mem_of_mem_tail inside)
    refine List.forall_mem_append.mpr ⟨freeMembers_distinctKeys _, ?_⟩
    simp [all, behind, mappedTrees_distinctKeys telegram]

/-! ## The whole tree -/

theorem tree_cases {d : Dictionary} {s : Settings} {date : String} {json : Json}
    (made : tree d s date = .ok json) :
    (∀ key ∈ treeKeys, key ∉ s.values) ∧ ∃ items, d.objects.mapM (objectTree d) = .ok items ∧
      json = .obj (freeMembers (s.values.map fun _ value => shownSetting value) ++
        [("objects", .arr items), ("date", .str date), ("appname", .str appName)]) := by
  obtain ⟨_, free, made⟩ := Except.bind_eq_ok made
  obtain ⟨items, each, made⟩ := Except.bind_eq_ok made
  cases made
  replace free := (checkKeys_ok_iff _).mp free
  simp only [Std.ExtTreeMap.mem_map] at free
  exact ⟨free, items, each, rfl⟩

theorem tree_ok_iff {d : Dictionary} {s : Settings} {date : String} :
    (∃ json, tree d s date = .ok json) ↔
      (∀ key ∈ treeKeys, key ∉ s.values) ∧ ∀ o ∈ d.objects, ∃ item, objectTree d o = .ok item := by
  constructor
  · rintro ⟨json, made⟩
    obtain ⟨free, items, each, -⟩ := tree_cases made
    refine ⟨free, fun o member => ?_⟩
    obtain ⟨k, place⟩ := List.mem_iff_getElem?.mp member
    obtain ⟨item, shown, -⟩ := mapM_at each place
    exact ⟨item, shown⟩
  · rintro ⟨free, each⟩
    obtain ⟨items, shown⟩ := mapM_total each
    have checked : checkKeys (s.values.map fun _ value => shownSetting value) treeKeys "setting" =
        .ok () := by simpa only [checkKeys_ok_iff, Std.ExtTreeMap.mem_map] using free
    exact ⟨_, by rw [tree, checked, shown]; rfl⟩

theorem tree_distinctKeys {d : Dictionary} (reachable : d.Reachable) {s : Settings} {date : String}
    {json : Json} (made : tree d s date = .ok json) : json.DistinctKeys := by
  obtain ⟨free, items, each, rfl⟩ := tree_cases made
  have distinct : treeKeys.Nodup := by decide
  have apart : ∀ key ∈ treeKeys, key ∉ s.values.map fun _ value => shownSetting value := by
    simpa only [Std.ExtTreeMap.mem_map] using free
  have objects : (Json.arr items).DistinctKeys := by
    apply Json.DistinctKeys.arr
    intro item member
    obtain ⟨o, -, shown⟩ := mapM_mem each member
    exact (objectTree_shows reachable shown).2
  refine .obj (members_nodup distinct apart) (List.forall_mem_append.mpr ?_)
  exact ⟨freeMembers_distinctKeys _, by simp [objects]⟩

theorem tree_objects {d : Dictionary} (reachable : d.Reachable) {s : Settings} {date : String}
    {json : Json} (made : tree d s date = .ok json) :
    ∃ items, json.member? "objects" = some (.arr items) ∧
      List.Forall₂ (ShowsObject d) d.objects items := by
  obtain ⟨free, items, each, rfl⟩ := tree_cases made
  refine ⟨items, ?_, ?_⟩
  · rw [member?_fixed]
    · rfl
    · simpa only [Std.ExtTreeMap.mem_map] using free "objects" (by decide)
  · exact (mapM_forall₂ each).imp fun _ _ shown => (objectTree_shows reachable shown).1

/-- The tree for a reachable dictionary exists unless a setting or an annotation is called like a
fixed key, an array has elements of a bit field type or a mapping object cannot be read. It has no
key twice and shows all objects in order. -/
theorem tree_faithful {d : Dictionary} (reachable : d.Reachable) (s : Settings) (date : String) :
    ((∃ json, tree d s date = .ok json) ↔
      (∀ key ∈ ["objects", "date", "appname"], s.contains key = false) ∧
      (∀ o ∈ d.objects, ∀ key ∈ objectKeys, key ∉ o.properties) ∧
      (∀ o ∈ d.objects, o.kind = .array →
        ∀ sub ∈ o.payload, sub.basicType.name ∉ BasicType.bitFieldNames) ∧
      (∀ o ∈ d.objects, o.IsMapping → ∃ entries, d.mapEntries o = .ok entries)) ∧
    ∀ json, tree d s date = .ok json →
      json.DistinctKeys ∧
      ∃ items, json.member? "objects" = some (.arr items) ∧
        List.Forall₂ (ShowsObject d) d.objects items := by
  refine ⟨?_, fun json made => ⟨tree_distinctKeys reachable made, tree_objects reachable made⟩⟩
  have settings : (∀ key ∈ treeKeys, key ∉ s.values) ↔
      ∀ key ∈ ["objects", "date", "appname"], s.contains key = false := by
    simp [treeKeys, Settings.contains, ← Std.ExtTreeMap.contains_iff_mem]
  rw [tree_ok_iff, settings]
  constructor
  · rintro ⟨free, each⟩
    have objects := fun o member => (objectTree_ok_iff reachable member).mp (each o member)
    exact ⟨free, fun o member => (objects o member).1, fun o member => (objects o member).2.1,
      fun o member => (objects o member).2.2⟩
  · rintro ⟨free, properties, arrays, mappings⟩
    refine ⟨free, fun o member => (objectTree_ok_iff reachable member).mpr ?_⟩
    exact ⟨properties o member, arrays o member, mappings o member⟩

/-- An array of single bits. -/
def switchArray : Object :=
  { kind := .array, index := 0x3000, symbol := "flags", description := "Flags",
    subs := Object.countSub 0x3000 2 ::
      [.zero, .zero].mapIdx (Object.element 0x3000 Access.read
        (BasicType.bitField "BOOL" 1 "BOOLEAN" 1)) }

theorem switchArray_built : switchArray.Built ∧ switchArray.Typed := by
  have made : Object.array 0x3000 "flags" "Flags" Access.read
      (BasicType.bitField "BOOL" 1 "BOOLEAN" 1) (some 2) [] = .ok switchArray := rfl
  exact ⟨.array ∅ made, Object.array_typed (by decide) made⟩

theorem switches_tree :
    ∃ c json next map, compile .plain switchesSource = .ok c ∧
      tree c.device.dictionary .empty "today" = .ok json ∧
      c.device.dictionary.insert switchArray = .ok next ∧
      c.device.dictionary.objects[2]? = some map ∧ map.IsMapping ∧
      ∀ packing, packMap c.device.dictionary map = .ok packing →
        packing.sequence = [("a", .bool 0), ("a", .align)] := by
  have shown : (resolve .plain switchesStatements).toOption.bind (fun c =>
      (tree c.device.dictionary .empty "today").toOption.bind fun _ =>
      (c.device.dictionary.insert switchArray).toOption.bind fun _ =>
      c.device.dictionary.objects[2]?.map fun map =>
        (map.index, (packMap c.device.dictionary map).toOption.map Packing.sequence)) =
      some (0x1600, some [("a", .bool 0), ("a", .align)]) := by
    decide +kernel
  obtain ⟨c, resolved, shown⟩ := Option.bind_eq_some_iff.mp shown
  obtain ⟨json, made, shown⟩ := Option.bind_eq_some_iff.mp shown
  obtain ⟨next, added, shown⟩ := Option.bind_eq_some_iff.mp shown
  obtain ⟨map, place, shown⟩ := Option.map_eq_some_iff.mp shown
  obtain ⟨index, packs⟩ := Prod.mk.inj shown
  refine ⟨c, json, next, map, ?_, Except.eq_ok_of_toOption made, Except.eq_ok_of_toOption added,
    place, ⟨.receive, ?_⟩, ?_⟩
  · rw [compile, parse_switches]
    exact Except.eq_ok_of_toOption resolved
  · rw [index]
    exact ⟨by decide, by decide⟩
  · intro packing packed
    simpa [packed, Except.toOption] using packs

/-- The tree of a program with two mappings of one bit each; the step behind a bit is there. A
setting that is called like a fixed key rules the tree out, and so does an array of bits. -/
theorem tree_faithful_switches :
    ∃ c json next, compile .plain switchesSource = .ok c ∧
      tree c.device.dictionary .empty "today" = .ok json ∧ json.DistinctKeys ∧
      (∃ map entries packing parts, c.device.dictionary.objects[2]? = some map ∧
        packing.sequence = [("a", .bool 0), ("a", .align)] ∧
        ShowsTelegram c.device.dictionary entries packing parts) ∧
      (¬∃ json, tree c.device.dictionary (Settings.empty.insert "date" .zero) "today" = .ok json) ∧
      c.device.dictionary.insert switchArray = .ok next ∧
      ¬∃ json, tree next .empty "today" = .ok json := by
  obtain ⟨c, json, next, map, same, made, added, place, mapping, steps⟩ := switches_tree
  have reachable : c.device.dictionary.Reachable := .start (.compiled same)
  obtain ⟨distinct, items, -, each⟩ := (tree_faithful reachable .empty "today").2 json made
  refine ⟨c, json, next, same, made, distinct, ?_, ?_, added, ?_⟩
  · obtain ⟨item, -, third⟩ := forall₂_at each place
    obtain ⟨entries, packing, parts, -, packed, -, telegram⟩ := third.mapping mapping
    exact ⟨map, entries, packing, parts, place, steps packing packed, telegram⟩
  · rw [(tree_faithful reachable _ "today").1]
    rintro ⟨free, -⟩
    have absent := free "date" (by decide)
    simp [Settings.contains, Settings.insert] at absent
  · have later : next.Reachable := .insert reachable switchArray_built.1 switchArray_built.2 added
    rw [(tree_faithful later _ "today").1]
    rintro ⟨-, -, arrays, -⟩
    have member : switchArray ∈ next.objects := by simp [(Dictionary.insert_ok added).1]
    have first := arrays switchArray member rfl
    simp [switchArray, Object.payload, Object.element, BasicType.bitField,
      BasicType.bitFieldNames] at first

end Template

end EcatDevice
