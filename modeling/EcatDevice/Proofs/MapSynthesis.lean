import EcatDevice.Proofs.ProcessDataSize
import Mathlib

/-! # Synthesized mappings

A mapping can be synthesized for every object of a dictionary at every free index of mapping
objects, and nothing else can fail. The record that is added has one reference for each sub-object
that carries data, and reading it gives back just these, marked with the direction; all else stays
as it is. Done in place, the call changes nothing before the last step that can fail, so an error
leaves the dictionary as it was.
-/

namespace EcatDevice

theorem Direction.ofMapIndex?_eq_some {index : UInt16} {direction : Direction} :
    ofMapIndex? index = some direction ↔ direction.Covers index := by
  refine ⟨?_, ofMapIndex?_of_covers⟩
  have high : ∀ n : UInt16, index >>> 8 = n → index.toNat / 256 = n.toNat := by
    rintro n rfl
    rw [UInt16.toNat_shiftRight, Nat.shiftRight_eq_div_pow]
    rfl
  intro mapping
  unfold ofMapIndex? at mapping
  split at mapping
  · next page =>
      cases mapping
      have page := high _ page
      simp only [Covers, UInt16.le_iff_toNat_le]
      simp at page ⊢
      omega
  · split at mapping
    · next page =>
        cases mapping
        have page := high _ page
        simp only [Covers, UInt16.le_iff_toNat_le]
        simp at page ⊢
        omega
    · cases mapping

/-! ## The mapping record -/

/-- The field of a mapping record that refers to a sub-object, at a position from zero. -/
def mapEntry (mapIndex : UInt16) (position : Nat) (sub : SubObject) : SubObject :=
  { index := mapIndex, subindex := UInt8.ofNat (position + 1), access := Access.read,
    basicType := BasicType.udint, symbol := sub.symbol, default := sub.referenceValue,
    description := sub.description }

namespace Object

/-- The mapping record for the data of an object. -/
def mappingRecord (source : Object) (mapIndex : UInt16) : Object :=
  { kind := .record, index := mapIndex, symbol := source.symbol ++ "_map",
    description := "PDO Map: " ++ source.description,
    subs := countSub mapIndex source.payload.length :: source.payload.mapIdx (mapEntry mapIndex) }

/-- Fields without wanted subindices are numbered one by one. -/
theorem fieldSubs_mapField (index : UInt16) (symbol : String) (subs : List SubObject)
    (previous : Nat) (room : previous + subs.length ≤ 255) :
    fieldSubs index symbol (UInt8.ofNat previous) (subs.map Dictionary.mapField) =
      .ok (subs.mapIdx fun i sub => mapEntry index (previous + i) sub) := by
  induction subs generalizing previous with
  | nil => rfl
  | cons sub rest ih =>
      rw [List.length_cons] at room
      have first : fieldSubindex symbol (UInt8.ofNat previous) (Dictionary.mapField sub) =
          .ok (UInt8.ofNat (previous + 1)) := by
        have next : UInt8.ofNat (previous + 1) = UInt8.ofNat previous + 1 := by simp
        have below : UInt8.ofNat previous < 255 := by
          rw [UInt8.lt_iff_toNat_lt, UInt8.toNat_ofNat_of_lt' (by simp [UInt8.size]; omega)]
          simp
          omega
        rw [next]
        exact if_pos below
      have shift : ∀ i, previous + 1 + i = previous + (i + 1) := by omega
      refine fieldSubs_cons.mpr ⟨_, _, first, ih (previous + 1) (by omega), ?_⟩
      simp only [List.mapIdx_cons, shift]
      rfl

theorem WellFormed.length_payload_le {o : Object} (formed : o.WellFormed) :
    o.payload.length ≤ 255 := by
  have all := formed.length_le
  have shape := formed.shape
  unfold payload
  cases kind : o.kind with
  | «variable» =>
      rw [kind] at shape
      have single := congrArg List.length shape
      simp at single ⊢
      omega
  | array | record =>
      simp
      omega

theorem record_mapping {source : Object} (few : source.payload.length ≤ 255) (mapIndex : UInt16) :
    record mapIndex (source.symbol ++ "_map") ("PDO Map: " ++ source.description)
      (source.payload.map Dictionary.mapField) = .ok (source.mappingRecord mapIndex) := by
  have subs : fieldSubs mapIndex (source.symbol ++ "_map") 0
      (source.payload.map Dictionary.mapField) =
        .ok (source.payload.mapIdx (mapEntry mapIndex)) := by
    have numbered := fieldSubs_mapField mapIndex (source.symbol ++ "_map") source.payload 0
      (by omega)
    simp only [Nat.zero_add] at numbered
    exact numbered
  unfold record
  rw [if_neg (by simpa using few), subs, List.length_map]
  rfl

/-! ## Marks -/

/-- The object with permissions added to all its data. -/
def grantPayload (o : Object) (access : Access) : Object :=
  { o with subs := o.subs.map fun sub => if sub ∈ o.payload then sub.grant access else sub }

theorem mem_subs_of_mem_payload {o : Object} {sub : SubObject} (member : sub ∈ o.payload) :
    sub ∈ o.subs := by
  unfold payload at member
  cases kind : o.kind <;> rw [kind] at member
  · exact member
  · exact List.mem_of_mem_drop member
  · exact List.mem_of_mem_drop member

theorem payload_grantPayload (o : Object) (access : Access) :
    (o.grantPayload access).payload = o.payload.map (·.grant access) := by
  have same : (o.grantPayload access).payload =
      o.payload.map fun sub => if sub ∈ o.payload then sub.grant access else sub := by
    rw [payload, grantPayload]
    dsimp only
    unfold payload
    cases o.kind <;> simp only [List.map_drop]
  rw [same]
  exact List.map_congr_left fun sub member => if_pos member

theorem typed_grantPayload {o : Object} (typed : o.Typed) (access : Access) :
    (o.grantPayload access).Typed := by
  intro sub member
  obtain ⟨origin, present, rfl⟩ := List.mem_map.mp member
  have kept := typed origin present
  split <;> exact kept

end Object

theorem MapRef.names_reference (index : UInt16) (subindex : UInt8) (sub : SubObject) :
    names index subindex sub.reference = true ↔ sub.index = index ∧ sub.subindex = subindex := by
  rw [names, SubObject.reference, unpack_pack, Bool.and_eq_true, beq_iff_eq, beq_iff_eq]

namespace Dictionary

/-- References to the data of an object mark just these. -/
theorem grantEach_payload {source : Object} (formed : source.WellFormed) (access : Access) :
    source.grantEach (grantsOf (source.payload.map SubObject.reference) access) =
      source.grantPayload access := by
  have each : ∀ sub ∈ source.subs,
      sub.grant (grantsOf (source.payload.map SubObject.reference) access source.index
        sub.subindex) = if sub ∈ source.payload then sub.grant access else sub := by
    intro sub member
    have named : (source.payload.map SubObject.reference).any
        (MapRef.names source.index sub.subindex) = true ↔ sub ∈ source.payload := by
      simp only [List.any_map, List.any_eq_true, Function.comp, MapRef.names_reference]
      constructor
      · rintro ⟨other, carried, -, same⟩
        have found := formed.sub?_of_mem (Object.mem_subs_of_mem_payload carried)
        rw [same, formed.sub?_of_mem member] at found
        exact Option.some.inj found ▸ carried
      · intro carried
        exact ⟨sub, carried, formed.home sub member, rfl⟩
    simp only [grantsOf, named]
    split
    · rfl
    · simp [SubObject.grant]
  rw [Object.grantEach, Object.grantPayload, List.map_congr_left each]

theorem grantEach_other {source o : Object} (formed : source.WellFormed)
    (other : o.index ≠ source.index) (access : Access) :
    o.grantEach (grantsOf (source.payload.map SubObject.reference) access) = o := by
  have none : ∀ subindex, grantsOf (source.payload.map SubObject.reference) access o.index
      subindex = Access.empty := by
    intro subindex
    refine if_neg ?_
    simp only [List.any_map, List.any_eq_true, Function.comp, MapRef.names_reference]
    rintro ⟨sub, carried, own, -⟩
    exact other (own.symm.trans (formed.home sub (Object.mem_subs_of_mem_payload carried)))
  simp only [Object.grantEach, none, SubObject.grant, Access.or_empty, List.map_id']

/-- The dictionary with a mapping of one of its objects. -/
def withMapping (d : Dictionary) (mapIndex : UInt16) (source : Object) (access : Access) :
    Dictionary :=
  { objects := d.objects.map
        (fun o => if o.index = source.index then source.grantPayload access else o)
      ++ [source.mappingRecord mapIndex] }

theorem grants_withMapping {d : Dictionary} (formed : d.WellFormed) {mapIndex : UInt16}
    {source : Object} (present : d.get? source.index = some source)
    (apart : mapIndex ≠ source.index) (access : Access) :
    source.payload.foldl (fun d sub => d.grant sub.reference access)
        { objects := d.objects ++ [source.mappingRecord mapIndex] } =
      d.withMapping mapIndex source access := by
  have formedSource := formed.objects source (mem_of_get? present).1
  have grants := foldl_grant_eq { objects := d.objects ++ [source.mappingRecord mapIndex] }
    (source.payload.map SubObject.reference) access
  rw [List.foldl_map] at grants
  have each : ∀ o ∈ d.objects,
      o.grantEach (grantsOf (source.payload.map SubObject.reference) access) =
        if o.index = source.index then source.grantPayload access else o := by
    intro o inside
    split
    · next here =>
        have same := get?_of_mem formed.distinct inside
        rw [here, present] at same
        rw [← Option.some.inj same]
        exact grantEach_payload formedSource access
    · next other => exact grantEach_other formedSource other access
  rw [grants, withMapping, List.map_append, List.map_congr_left each, List.map_singleton,
    grantEach_other formedSource apart]

/-- What the call gives for each input: there are three ways to fail. -/
theorem synthesizeMap_eq {d : Dictionary} (formed : d.WellFormed) (mapIndex sourceIndex : UInt16) :
    d.synthesizeMap mapIndex sourceIndex =
      match Direction.ofMapIndex? mapIndex, d.get? sourceIndex, d.get? mapIndex with
      | none, _, _ => .error (.unsupported
          ("0x" ++ Text.hexFillUpper 4 mapIndex.toNat ++ " is not a PDO mapping index"))
      | some _, none, _ => .error (.undefinedSymbol
          ("0x" ++ Text.hexFillUpper 4 sourceIndex.toNat))
      | some _, some _, some _ => .error (.duplicateIndex mapIndex)
      | some direction, some source, none =>
        .ok (d.withMapping mapIndex source direction.flag) := by
  unfold synthesizeMap
  cases Direction.ofMapIndex? mapIndex with
  | none => rfl
  | some direction =>
      cases present : d.get? sourceIndex with
      | none => rfl
      | some source =>
          obtain ⟨member, rfl⟩ := mem_of_get? present
          have few := (formed.objects source member).length_payload_le
          have own : (source.mappingRecord mapIndex).index = mapIndex := rfl
          cases free : d.get? mapIndex with
          | some other =>
              simp only [Object.record_mapping few, insert, own, free, bind, Except.bind,
                Option.isSome_some, if_true]
          | none =>
              -- The source is there and its index is not free, so the record never maps itself.
              have apart : mapIndex ≠ source.index := by
                rintro rfl
                cases free.symm.trans present
              simp only [Object.record_mapping few, insert, own, free, bind, Except.bind,
                Option.isSome_none, Bool.false_eq_true, if_false]
              exact congrArg Except.ok (grants_withMapping formed present apart direction.flag)

theorem synthesizeMap_ok_iff {d next : Dictionary} (formed : d.WellFormed)
    {mapIndex sourceIndex : UInt16} :
    d.synthesizeMap mapIndex sourceIndex = .ok next ↔
      ∃ direction source, Direction.ofMapIndex? mapIndex = some direction ∧
        d.get? sourceIndex = some source ∧ d.get? mapIndex = none ∧
        next = d.withMapping mapIndex source direction.flag := by
  rw [synthesizeMap_eq formed]
  cases Direction.ofMapIndex? mapIndex <;> cases d.get? sourceIndex <;> cases d.get? mapIndex <;>
    simp [eq_comm]

/-! ## Dictionaries that can be reached -/

/-- A dictionary that programs and calls can lead to. Calls that fail are left out: they change
nothing. -/
inductive Reachable : Dictionary → Prop where
  | start {d : Dictionary} : Start d → Reachable d
  | insert {d next : Dictionary} {object : Object} : Reachable d → object.Built → object.Typed →
      d.insert object = .ok next → Reachable next
  | synthesize {d next : Dictionary} {mapIndex sourceIndex : UInt16} : Reachable d →
      d.synthesizeMap mapIndex sourceIndex = .ok next → Reachable next

theorem Start.typed {d : Dictionary} (start : Start d) : ∀ o ∈ d.objects, o.Typed := by
  cases start with
  | empty => exact List.forall_mem_nil _
  | compiled made =>
      obtain ⟨statements, -, made⟩ := Except.bind_eq_ok made
      obtain ⟨r, steps, made⟩ := Except.bind_eq_ok made
      cases made
      exact Resolution.steps_typed steps

theorem typed_mappingRecord (source : Object) (mapIndex : UInt16) :
    (source.mappingRecord mapIndex).Typed := by
  have udint : BasicType.udint ∈ BasicType.catalog := by decide
  refine List.forall_mem_cons.mpr ⟨List.mem_cons_self, ?_⟩
  intro sub member
  obtain ⟨i, _, rfl⟩ := List.mem_mapIdx.mp member
  exact udint

theorem Reachable.sound {d : Dictionary} (reachable : Reachable d) :
    d.WellFormed ∧ ∀ o ∈ d.objects, o.Typed := by
  induction reachable with
  | start start =>
      have formed : Dictionary.empty.WellFormed := ⟨List.nodup_nil, List.forall_mem_nil _⟩
      exact ⟨start.changes.accepted_wellFormed formed, start.typed⟩
  | insert _ built typed made ih =>
      have changes : Changes Object.Built _ _ := .single (.insert built made)
      refine ⟨changes.wellFormed (fun _ => Object.Built.wellFormed) ih.1, ?_⟩
      rw [(insert_ok made).1]
      exact List.forall_mem_append.mpr ⟨ih.2, List.forall_mem_singleton.mpr typed⟩
  | synthesize _ made ih =>
      refine ⟨(synthesizeMap_changes made).accepted_wellFormed ih.1, ?_⟩
      obtain ⟨direction, source, -, found, -, rfl⟩ := (synthesizeMap_ok_iff ih.1).mp made
      refine List.forall_mem_append.mpr
        ⟨?_, List.forall_mem_singleton.mpr (typed_mappingRecord source _)⟩
      intro o member
      obtain ⟨origin, present, rfl⟩ := List.mem_map.mp member
      split
      · exact Object.typed_grantPayload (ih.2 source (mem_of_get? found).1) _
      · exact ih.2 origin present

/-! ## Entries -/

/-- References to sub-objects that are there are read as just these. -/
theorem entriesFrom_references {d : Dictionary} {map : Object} {entries subs : List SubObject}
    (defaults : entries.map SubObject.default = subs.map SubObject.referenceValue)
    (found : ∀ sub ∈ subs, d.find? sub.reference = some sub)
    (typed : ∀ sub ∈ subs, sub.basicType ∈ BasicType.catalog) :
    d.entriesFrom map entries = .ok subs := by
  induction subs generalizing entries with
  | nil =>
      rw [List.map_eq_nil_iff.mp defaults]
      rfl
  | cons sub subs ih =>
      obtain ⟨entry, rest, rfl, first, others⟩ := List.map_eq_cons_iff.mp defaults
      obtain ⟨here, later⟩ := List.forall_mem_cons.mp found
      obtain ⟨listed, typedLater⟩ := List.forall_mem_cons.mp typed
      have reference : entryReference map entry = .ok sub.reference := by
        rw [entryReference_ok, first]
        exact MapRef.ofInt?_ofNat sub.reference
      simp only [entriesFrom, reference, SubObject.reference_ne_zero listed, here,
        ih others later typedLater, bind, Except.bind, if_false]
      rfl

theorem mem_withMapping {d : Dictionary} {source : Object} (member : source ∈ d.objects)
    (mapIndex : UInt16) (access : Access) :
    source.grantPayload access ∈ (d.withMapping mapIndex source access).objects :=
  List.mem_append_left _ (List.mem_map.mpr ⟨source, member, if_pos rfl⟩)

theorem defaults_mappingRecord (source : Object) (mapIndex : UInt16) (access : Access) :
    (source.mappingRecord mapIndex).payload.map SubObject.default =
      (source.grantPayload access).payload.map SubObject.referenceValue := by
  have fields : (source.mappingRecord mapIndex).payload =
      source.payload.mapIdx (mapEntry mapIndex) := rfl
  rw [fields, Object.payload_grantPayload]
  apply List.ext_getElem?
  intro i
  simp only [List.getElem?_map, List.getElem?_mapIdx, Option.map_map]
  rfl

/-- The mapping record is read as the data of its source, in order. -/
theorem mapEntries_withMapping {d : Dictionary} {mapIndex : UInt16} {source : Object}
    {access : Access} (reachable : Reachable (d.withMapping mapIndex source access))
    (present : source ∈ d.objects) :
    (d.withMapping mapIndex source access).mapEntries (source.mappingRecord mapIndex) =
      .ok (source.grantPayload access).payload := by
  obtain ⟨formed, typed⟩ := reachable.sound
  have member := mem_withMapping present mapIndex access
  apply entriesFrom_references (defaults_mappingRecord source mapIndex access)
  · intro sub carried
    exact find?_reference formed member (Object.mem_subs_of_mem_payload carried)
  · intro sub carried
    exact typed _ member sub (Object.mem_subs_of_mem_payload carried)

/-! ## Calls in place -/

/-- A call that works on a dictionary in place: an error leaves what was done before it. -/
abbrev InPlace := ExceptT Error (StateM Dictionary)

namespace InPlace

def insert (object : Object) : InPlace Unit := do
  let d ← get
  if (d.get? object.index).isSome then throw (.duplicateIndex object.index)
  else set ({ objects := d.objects ++ [object] } : Dictionary)

/-- Marks sub-objects one after the other. -/
def grantAll (access : Access) : List SubObject → InPlace Unit
  | [] => pure ()
  | sub :: rest => do
    modify (·.grant sub.reference access)
    grantAll access rest

def synthesize (mapIndex sourceIndex : UInt16) : InPlace Unit := do
  match Direction.ofMapIndex? mapIndex with
  | none =>
    throw (.unsupported
      ("0x" ++ Text.hexFillUpper 4 mapIndex.toNat ++ " is not a PDO mapping index"))
  | some direction =>
    match (← get).get? sourceIndex with
    | none => throw (.undefinedSymbol ("0x" ++ Text.hexFillUpper 4 sourceIndex.toNat))
    | some source =>
      match Object.record mapIndex (source.symbol ++ "_map") ("PDO Map: " ++ source.description)
          (source.payload.map mapField) with
      | .error e => throw e
      | .ok map =>
        insert map
        grantAll direction.flag source.payload

/-- The outcome of a call and the dictionary behind it. -/
def on {α : Type} (call : InPlace α) (d : Dictionary) : Except Error α × Dictionary :=
  (ExceptT.run call).run d

/-- The outcome of a call that gives a new dictionary or leaves the old one. -/
def outcome (d : Dictionary) : Except Error Dictionary → Except Error Unit × Dictionary
  | .ok next => (.ok (), next)
  | .error e => (.error e, d)

theorem bind_on {α β : Type} (call : InPlace α) (next : α → InPlace β) (d : Dictionary) :
    (call >>= next).on d =
      match call.on d with
      | (.ok a, d) => (next a).on d
      | (.error e, d) => (.error e, d) := by
  rw [on, ExceptT.run_bind, StateT.run_bind, on]
  rcases (ExceptT.run call).run d with ⟨e | a, middle⟩ <;> rfl

theorem insert_on (object : Object) (d : Dictionary) :
    (insert object).on d = outcome d (d.insert object) := by
  rw [insert, bind_on, Dictionary.insert]
  change on (if (d.get? object.index).isSome then _ else _) d = _
  split <;> rfl

theorem grantAll_on (access : Access) (subs : List SubObject) (d : Dictionary) :
    (grantAll access subs).on d =
      (.ok (), subs.foldl (fun d sub => d.grant sub.reference access) d) := by
  induction subs generalizing d with
  | nil => rfl
  | cons sub rest ih => exact ih (d.grant sub.reference access)

/-- In place, the call gives what it gives for the dictionary as a value, and an error leaves the
dictionary as it was. -/
theorem synthesize_on (mapIndex sourceIndex : UInt16) (d : Dictionary) :
    (synthesize mapIndex sourceIndex).on d =
      outcome d (d.synthesizeMap mapIndex sourceIndex) := by
  unfold synthesize synthesizeMap
  cases Direction.ofMapIndex? mapIndex with
  | none => rfl
  | some direction =>
      dsimp only
      rw [bind_on]
      change InPlace.on (match d.get? sourceIndex with | none => _ | some source => _) d = _
      cases d.get? sourceIndex with
      | none => rfl
      | some source =>
          dsimp only
          cases Object.record mapIndex (source.symbol ++ "_map") ("PDO Map: " ++ source.description)
            (source.payload.map mapField) with
          | error e => rfl
          | ok map =>
              dsimp only
              rw [bind_on, insert_on]
              simp only [bind, Except.bind]
              cases d.insert map with
              | error e => rfl
              | ok added => exact grantAll_on direction.flag source.payload added

end InPlace

/-- A mapping is synthesized for an object that is there, at an index of mapping objects that is
free, and nothing else fails. An error leaves the dictionary as it was. Otherwise one record comes
behind the other objects, it is read as the data of the source, these carry the mark of the
direction, and nothing else is changed. -/
theorem synthesize_all_or_nothing {d : Dictionary} (reachable : Reachable d)
    (mapIndex sourceIndex : UInt16) :
    (InPlace.synthesize mapIndex sourceIndex).on d =
        InPlace.outcome d (d.synthesizeMap mapIndex sourceIndex) ∧
    ((∃ next, d.synthesizeMap mapIndex sourceIndex = .ok next) ↔
      (∃ direction : Direction, direction.Covers mapIndex) ∧ d.get? sourceIndex ≠ none ∧
        d.get? mapIndex = none) ∧
    ∀ next, d.synthesizeMap mapIndex sourceIndex = .ok next →
      ∃ (direction : Direction) (source marked : Object), direction.Covers mapIndex ∧
        d.get? sourceIndex = some source ∧ marked = source.grantPayload direction.flag ∧
        next.objects = d.objects.map (fun o => if o.index = sourceIndex then marked else o) ++
          [source.mappingRecord mapIndex] ∧
        next.mapEntries (source.mappingRecord mapIndex) = .ok marked.payload ∧
        marked.payload = source.payload.map (·.grant direction.flag) := by
  obtain ⟨formed, -⟩ := reachable.sound
  refine ⟨InPlace.synthesize_on mapIndex sourceIndex d, ?_, ?_⟩
  · simp only [synthesizeMap_ok_iff formed, Direction.ofMapIndex?_eq_some,
      Option.ne_none_iff_exists']
    constructor
    · rintro ⟨next, direction, source, covers, present, free, -⟩
      exact ⟨⟨direction, covers⟩, ⟨source, present⟩, free⟩
    · rintro ⟨⟨direction, covers⟩, ⟨source, present⟩, free⟩
      exact ⟨_, direction, source, covers, present, free, rfl⟩
  · intro next made
    have later := reachable.synthesize made
    obtain ⟨direction, source, mapping, present, -, rfl⟩ := (synthesizeMap_ok_iff formed).mp made
    obtain ⟨member, rfl⟩ := mem_of_get? present
    exact ⟨direction, source, _, Direction.ofMapIndex?_eq_some.mp mapping, present, rfl, rfl,
      mapEntries_withMapping later member, source.payload_grantPayload _⟩

/-- A variable at the index zero: its reference states nothing but a width. -/
def originObject : Object :=
  Object.single 0 "origin" "Origin" Access.read BasicType.udint (.int 0)

/-- The mapping of that variable, and another one at an index that is taken. -/
theorem synthesize_all_or_nothing_origin :
    ∃ c d next, compile .plain sampleSource = .ok c ∧
      c.device.dictionary.insert originObject = .ok d ∧
      d.synthesizeMap 0x1600 0 = .ok next ∧
      next.mapEntries (originObject.mappingRecord 0x1600) =
        .ok (originObject.payload.map (·.grant Access.rxPdo)) ∧
      (InPlace.synthesize 0x1a00 0).on d = (.error (.duplicateIndex 0x1a00), d) := by
  have shown : (resolve .plain sampleStatements).toOption.bind (fun c =>
      (c.device.dictionary.insert originObject).toOption.map fun d =>
        ((d.get? 0x1600).isNone, (d.get? 0x1a00).isSome)) = some (true, true) := by
    decide +kernel
  obtain ⟨c, resolved, shown⟩ := Option.bind_eq_some_iff.mp shown
  obtain ⟨d, added, shown⟩ := Option.map_eq_some_iff.mp shown
  obtain ⟨free, taken⟩ := Prod.mk.inj shown
  have same : compile .plain sampleSource = .ok c := by
    rw [compile, parse_sample]
    exact Except.eq_ok_of_toOption resolved
  have inserted := Except.eq_ok_of_toOption added
  have typed : originObject.Typed := Object.single_typed _ _ _ _ (by decide) _ ∅
  have reachable : Reachable d :=
    .insert (.start (.compiled same)) (.single _ _ _ _ _ _ ∅) typed inserted
  have formed := reachable.sound.1
  have present : d.get? 0 = some originObject := by
    have member : originObject ∈ d.objects := by simp [(insert_ok inserted).1]
    exact get?_of_mem formed.distinct member
  have covers : Direction.receive.Covers 0x1600 := ⟨by decide, by decide⟩
  obtain ⟨-, succeeds, each⟩ := synthesize_all_or_nothing reachable 0x1600 0
  obtain ⟨next, made⟩ := succeeds.mpr
    ⟨⟨.receive, covers⟩, by simp [present], Option.isNone_iff_eq_none.mp free⟩
  obtain ⟨direction, source, marked, covered, found, -, -, entries, data⟩ := each next made
  cases present.symm.trans found
  have receive := Direction.ofMapIndex?_of_covers covers
  cases receive.symm.trans (Direction.ofMapIndex?_of_covers covered)
  refine ⟨c, d, next, same, inserted, made, entries.trans (congrArg _ data), ?_⟩
  obtain ⟨other, occupied⟩ := Option.isSome_iff_exists.mp taken
  have transmit : Direction.ofMapIndex? 0x1a00 = some .transmit := by decide
  rw [(synthesize_all_or_nothing reachable 0x1a00 0).1, synthesizeMap_eq formed, transmit, present,
    occupied]
  rfl

end Dictionary

end EcatDevice
