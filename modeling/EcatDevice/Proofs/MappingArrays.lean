import EcatDevice.ProcessData.Mapped
import EcatDevice.Proofs.DictionaryGrowth
import EcatDevice.Proofs.MappingReferences
import Mathlib

/-! # Mapping arrays

An array at an index of mapping objects that is initialized with references resolves: each value of
its initializer leads to one sub-object of the compiled dictionary, in order, that is marked with
the direction, and the telegram of the array can be packed. Nothing that is declared later changes
this.
-/

namespace EcatDevice

/-! ## Marks -/

theorem Object.sub?_grant (o : Object) (marked : UInt8) (access : Access) (subindex : UInt8) :
    (o.grant marked access).sub? subindex = (o.sub? subindex).map fun sub =>
      if sub.subindex = marked then sub.grant access else sub := by
  rw [sub?, grant, List.find?_map]
  congr 2
  funext sub
  dsimp only [Function.comp]
  split <;> rfl

theorem SubObject.Extends.referenceValue {sub later : SubObject} (kept : sub.Extends later) :
    later.referenceValue = sub.referenceValue := by
  rw [SubObject.referenceValue, SubObject.referenceValue, kept.reference]

namespace Dictionary

theorem get?_grant (d : Dictionary) (reference : UInt32) (access : Access) (index : UInt16) :
    (d.grant reference access).get? index = (d.get? index).map fun o =>
      if o.index = (MapRef.unpack reference).index then
        o.grant (MapRef.unpack reference).subindex access
      else o := by
  rw [get?, grant, List.find?_map]
  congr 2
  funext o
  dsimp only [Function.comp]
  split <;> rfl

theorem find?_grant {d : Dictionary} {reference : UInt32} {sub : SubObject} (access : Access)
    (found : d.find? reference = some sub) :
    (d.grant reference access).find? reference = some (sub.grant access) := by
  obtain ⟨o, object, part⟩ := Option.bind_eq_some_iff.mp found
  refine Option.bind_eq_some_iff.mpr ⟨o.grant (MapRef.unpack reference).subindex access, ?_, ?_⟩
  · rw [get?_grant, object, Option.map_some, if_pos (mem_of_get? object).2]
  · rw [Object.sub?_grant, part, Option.map_some, if_pos (Object.mem_of_sub? part).2]

/-- A sub-object that a reference finds and that is marked. -/
structure Maps (d : Dictionary) (flag : Access) (sub : SubObject) : Prop where
  found : d.find? sub.reference = some sub
  typed : sub.basicType ∈ BasicType.catalog
  marked : sub.access.contains flag = true

/-- A value that refers to a marked sub-object. -/
def Resolves (d : Dictionary) (flag : Access) (value : Value) : Prop :=
  ∃ sub, d.Maps flag sub ∧ value = sub.referenceValue

theorem Resolves.grown {d later : Dictionary} {flag : Access} {value : Value}
    (resolves : d.Resolves flag value) (grown : d.Extends later) (formed : later.WellFormed) :
    later.Resolves flag value := by
  obtain ⟨sub, maps, rfl⟩ := resolves
  obtain ⟨next, found, kept⟩ := grown.find? formed maps.found
  refine ⟨next, ⟨?_, ?_, ?_⟩, ?_⟩
  · rwa [kept.reference]
  · rw [kept.basicType]
    exact maps.typed
  · exact Access.contains_trans kept.access maps.marked
  · exact kept.referenceValue.symm

end Dictionary

namespace Resolution

/-- Each entry of a mapping array marks what it refers to. -/
theorem tags_mark {symbol : String} {direction : Direction} {entries : List Int64} {r : Resolution}
    (formed : r.dictionary.WellFormed) {reference : UInt32} {sub : SubObject}
    (listed : Int64.ofNat reference.toNat ∈ entries)
    (found : r.dictionary.find? reference = some sub) :
    ∃ next, (entries.foldl (tag symbol direction) r).dictionary.find? reference = some next ∧
      sub.Extends next ∧ next.access.contains direction.flag = true := by
  induction entries generalizing r sub with
  | nil => cases listed
  | cons entry rest ih =>
      have step := tag_changes symbol direction [entry] r
      have formedStep := step.accepted_wellFormed formed
      -- The entry itself gives the mark; the others can only add to what it finds.
      rcases List.mem_cons.mp listed with rfl | later
      · have marked : (tag symbol direction r (Int64.ofNat reference.toNat)).dictionary.find?
            reference = some (sub.grant direction.flag) := by
          rw [tag, MapRef.ofInt?_ofNat]
          simp only [found, Option.isSome_some, if_true]
          exact Dictionary.find?_grant direction.flag found
        have behind := tag_changes symbol direction rest
          (tag symbol direction r (Int64.ofNat reference.toNat))
        obtain ⟨next, foundNext, kept⟩ :=
          behind.grown.find? (behind.accepted_wellFormed formedStep) marked
        refine ⟨next, foundNext, (sub.extends_grant _).trans kept, ?_⟩
        exact Access.contains_trans kept.access (Access.or_contains_right _ _)
      · obtain ⟨one, foundOne, kept⟩ := step.grown.find? formedStep found
        obtain ⟨next, foundNext, keptNext, marked⟩ := ih formedStep later foundOne
        exact ⟨next, foundNext, kept.trans keptNext, marked⟩

theorem tags_resolve {symbol : String} {direction : Direction} {entries : List Int64}
    {r : Resolution} (formed : r.dictionary.WellFormed) {sub : SubObject}
    (listed : Int64.ofNat sub.reference.toNat ∈ entries)
    (typed : sub.basicType ∈ BasicType.catalog)
    (found : r.dictionary.find? sub.reference = some sub) :
    (entries.foldl (tag symbol direction) r).dictionary.Resolves direction.flag
      sub.referenceValue := by
  obtain ⟨next, foundNext, kept, marked⟩ := tags_mark formed listed found
  refine ⟨next, ⟨?_, ?_, marked⟩, kept.referenceValue.symm⟩
  · rwa [kept.reference]
  · rwa [kept.basicType]

end Resolution

/-! ## Entries -/

namespace Dictionary

theorem entriesFrom_zeros {d : Dictionary} {map : Object} {zeros : Nat} {entries : List SubObject}
    (defaults : entries.map SubObject.default = List.replicate zeros Value.zero) :
    d.entriesFrom map entries = .ok [] := by
  induction entries generalizing zeros with
  | nil => rfl
  | cons entry rest ih =>
      cases zeros with
      | zero => cases defaults
      | succ zeros =>
          obtain ⟨first, others⟩ := List.cons.inj defaults
          have none : entryReference map entry = .ok 0 := by
            rw [entryReference, first]
            rfl
          rw [entriesFrom, none]
          exact ih others

/-- Values that resolve are read as the sub-objects they refer to, and padding as nothing. -/
theorem entriesFrom_resolves {d : Dictionary} {map : Object} {flag : Access} {values : List Value}
    {zeros : Nat} {entries : List SubObject}
    (defaults : entries.map SubObject.default = values ++ List.replicate zeros Value.zero)
    (each : ∀ value ∈ values, d.Resolves flag value) :
    ∃ found, d.entriesFrom map entries = .ok found ∧
      found.map SubObject.referenceValue = values ∧ ∀ sub ∈ found, d.Maps flag sub := by
  induction values generalizing entries with
  | nil => exact ⟨[], entriesFrom_zeros defaults, rfl, List.forall_mem_nil _⟩
  | cons value values ih =>
      cases entries with
      | nil => cases defaults
      | cons entry rest =>
          obtain ⟨first, others⟩ := List.cons.inj defaults
          obtain ⟨here, later⟩ := List.forall_mem_cons.mp each
          obtain ⟨sub, maps, rfl⟩ := here
          obtain ⟨found, read, same, all⟩ := ih others later
          have reference : entryReference map entry = .ok sub.reference := by
            rw [entryReference, first, SubObject.referenceValue]
            simp only [Value.int?, Option.bind_some, MapRef.ofInt?_ofNat]
          refine ⟨sub :: found, ?_, ?_, List.forall_mem_cons.mpr ⟨maps, all⟩⟩
          · rw [entriesFrom, reference]
            simp only [bind, Except.bind, SubObject.reference_ne_zero maps.typed, if_false,
              maps.found, read]
            rfl
          · rw [List.map_cons, same]

end Dictionary

/-! ## Telegrams -/

namespace ProcessData

theorem fieldOps_total {field : Field}
    (whole : field.byteAligned = true → field.bits ≠ 1 → field.bits % 8 = 0) (cursor : Nat) :
    ∃ ops, fieldOps cursor field = .ok ops := by
  unfold fieldOps
  split
  · exact ⟨_, rfl⟩
  · next several =>
      split
      · next aligned => exact ⟨_, if_pos (whole aligned several)⟩
      · exact ⟨_, rfl⟩

theorem packFrom_total {fields : List Field} (cursor : Nat)
    (whole : ∀ field ∈ fields, field.byteAligned = true → field.bits ≠ 1 → field.bits % 8 = 0) :
    ∃ packed, packFrom cursor fields = .ok packed := by
  induction fields generalizing cursor with
  | nil => exact ⟨[], rfl⟩
  | cons field rest ih =>
      obtain ⟨here, later⟩ := List.forall_mem_cons.mp whole
      obtain ⟨⟨ops, next⟩, first⟩ := fieldOps_total here cursor
      obtain ⟨packed, others⟩ := ih next later
      simp only [packFrom, first, others, bind, Except.bind]
      exact ⟨_, rfl⟩

theorem packMap_total {d : Dictionary} {map : Object} {flag : Access} {entries : List SubObject}
    (read : d.mapEntries map = .ok entries) (each : ∀ sub ∈ entries, d.Maps flag sub) :
    ∃ packing, packMap d map = .ok packing := by
  have owned : ∀ sub ∈ entries, ∃ field, fieldOf d sub = .ok field := by
    intro sub member
    obtain ⟨o, object, -⟩ := Option.bind_eq_some_iff.mp (each sub member).found
    rw [SubObject.reference, MapRef.unpack_pack] at object
    rw [fieldOf, object]
    exact ⟨_, rfl⟩
  obtain ⟨fields, given⟩ := mapM_total owned
  have whole : ∀ field ∈ fields, field.byteAligned = true → field.bits ≠ 1 →
      field.bits % 8 = 0 := by
    intro field member aligned _
    obtain ⟨sub, present, made⟩ := mapM_mem given member
    unfold fieldOf at made
    split at made
    · cases made
    · cases made
      exact (BasicType.widths _ (each sub present).typed).2.2 aligned
  obtain ⟨packed, packs⟩ := packFrom_total 0 whole
  refine ⟨{ fields := packed }, ?_⟩
  simp only [packMap, mapFields, pack, read, given, packs, bind, Except.bind]
  rfl

end ProcessData

/-! ## Declarations -/

/-- The indices of mapping objects. -/
def Direction.Covers (index : UInt16) : Direction → Prop
  | .receive => 0x1600 ≤ index ∧ index ≤ 0x16ff
  | .transmit => 0x1a00 ≤ index ∧ index ≤ 0x1aff

theorem Direction.ofMapIndex?_of_covers {index : UInt16} {direction : Direction}
    (covers : direction.Covers index) : ofMapIndex? index = some direction := by
  have high : ∀ n : UInt16, index >>> 8 = n ↔ index.toNat / 256 = n.toNat := by
    intro n
    rw [← UInt16.toNat_inj, UInt16.toNat_shiftRight, Nat.shiftRight_eq_div_pow]
    rfl
  cases direction with
  | receive =>
      obtain ⟨lower, upper⟩ := covers
      rw [UInt16.le_iff_toNat_le] at lower upper
      have page : index >>> 8 = 0x16 := (high 0x16).mpr (by simp at lower upper ⊢; omega)
      rw [ofMapIndex?, if_pos page]
  | transmit =>
      obtain ⟨lower, upper⟩ := covers
      rw [UInt16.le_iff_toNat_le] at lower upper
      have page : index >>> 8 = 0x1a := (high 0x1a).mpr (by simp at lower upper ⊢; omega)
      rw [ofMapIndex?, if_neg, if_pos page]
      rw [page]
      decide

/-- An array that holds values and zeros behind them. -/
structure Object.HoldsValues (o : Object) (symbol : String) (values : List Value) : Prop where
  kind : o.kind = .array
  symbol : o.symbol = symbol
  padded : ∃ zeros, o.payload.map SubObject.default = values ++ List.replicate zeros Value.zero

theorem Object.HoldsValues.annotated {o : Object} {symbol : String} {values : List Value}
    (holds : o.HoldsValues symbol values) (properties : ValueMap) :
    { o with properties }.HoldsValues symbol values :=
  ⟨holds.kind, holds.symbol, holds.padded⟩

theorem Object.HoldsValues.grown {o later : Object} {symbol : String} {values : List Value}
    (holds : o.HoldsValues symbol values) (kept : o.Extends later) :
    later.HoldsValues symbol values where
  kind := by
    have same := congrArg Object.kind kept.same
    exact same.trans holds.kind
  symbol := by
    have same := congrArg Object.symbol kept.same
    exact same.trans holds.symbol
  padded := by
    rw [kept.defaults]
    exact holds.padded

theorem Object.HoldsValues.mem_entries {o : Object} {symbol : String} {values : List Value}
    (holds : o.HoldsValues symbol values) {n : Int64} (member : .int n ∈ values) :
    n ∈ o.payload.filterMap (·.default.int?) := by
  obtain ⟨zeros, padded⟩ := holds.padded
  have listed : .int n ∈ o.payload.map SubObject.default := by
    rw [padded]
    exact List.mem_append_left _ member
  obtain ⟨entry, present, same⟩ := List.mem_map.mp listed
  exact List.mem_filterMap.mpr ⟨entry, present, by rw [same]; rfl⟩

theorem Object.array_holdsValues {index : UInt16} {symbol description : String} {access : Access}
    {t : BasicType} {size : Option Nat} {values : List Value} {o : Object}
    (made : Object.array index symbol description access t size values = .ok o) :
    o.HoldsValues symbol values := by
  obtain ⟨zeros, _, rfl⟩ := array_ok made
  refine ⟨rfl, rfl, zeros, ?_⟩
  change ((values ++ List.replicate zeros Value.zero).mapIdx (element index access t)).map
    SubObject.default = _
  apply List.ext_getElem?
  intro i
  rw [List.getElem?_map, List.getElem?_mapIdx, Option.map_map]
  exact congrFun Option.map_id _

namespace Resolution

open Dictionary (Accepted Changes)

/-- An array declared with references holds them, and at an index of mapping objects all of them
lead to marked sub-objects. -/
theorem declareArray_resolves {r next : Resolution} {s : ArrayDecl}
    (formed : r.dictionary.WellFormed) (typed : ∀ o ∈ r.dictionary.objects, o.Typed)
    (references : ∀ item ∈ s.values, ∃ name, item = .symbol .reference name)
    (made : r.declareArray s = .ok next) :
    ∃ index values warnings map, r.nextIndex s.symbol s.index = .ok index ∧
      r.scope.expandAll s.values = .ok (values, warnings) ∧
      next.dictionary.get? index = some map ∧ map.HoldsValues s.symbol values ∧
      ∀ direction, Direction.ofMapIndex? index = some direction →
        ∀ value ∈ values, next.dictionary.Resolves direction.flag value := by
  have formedNext := (declareArray_changes made).accepted_wellFormed formed
  obtain ⟨t, index, size, values, warnings, object, annotated, properties, added, -, indexed,
    expanded, array, notes, inserted, after⟩ := declareArray_ok made
  have change := insert_change (.array properties array) inserted
  obtain ⟨-, objects, -⟩ := insert_declares inserted
  rw [annotate_dictionary notes] at change objects
  have changes : Changes Accepted r.dictionary added.dictionary := .single change
  have formedAdded := changes.accepted_wellFormed formed
  have holds := Object.array_holdsValues array
  have own : object.index = index := by
    obtain ⟨_, _, rfl⟩ := Object.array_ok array
    rfl
  have found : added.dictionary.get? index = some { object with properties } := by
    rw [← own]
    have member : { object with properties } ∈ added.dictionary.objects := by
      rw [objects]
      exact List.mem_append_right _ List.mem_cons_self
    exact Dictionary.get?_of_mem formedAdded.distinct member
  have grown : added.dictionary.Extends next.dictionary := by
    rw [after]
    split
    · exact (tag_changes _ _ _ (added.publish s.symbol (.object index))).grown
    · exact .refl _
  obtain ⟨map, foundMap, kept⟩ := grown.get? formedNext found
  have holdsMap := (holds.annotated properties).grown kept
  refine ⟨index, values, warnings, map, indexed, expanded, foundMap, holdsMap, ?_⟩
  -- A value was looked up before the array existed, so what it refers to is followed through the
  -- insertion and then through the marks.
  intro direction mapping value member
  obtain ⟨e, sub, denotes, rfl⟩ := Scope.expandAll_reference references expanded value member
  obtain ⟨o, present, part⟩ := Dictionary.mem_of_sub? denotes
  have before := Dictionary.find?_reference formed present part
  obtain ⟨middle, foundMiddle, keptMiddle⟩ := changes.grown.find? formedAdded before
  rw [← keptMiddle.reference] at foundMiddle
  rw [after, mapping, ← keptMiddle.referenceValue]
  refine tags_resolve (r := added.publish s.symbol (.object index)) formedAdded ?_ ?_ foundMiddle
  · rw [keptMiddle.reference]
    exact holds.mem_entries member
  · rw [keptMiddle.basicType]
    exact typed o present sub part

end Resolution

/-! ## Programs -/

/-- Every mapping array that a program declares with references alone resolves in the compiled
dictionary. -/
theorem compile_mapping_resolves {engine : Regex.Engine} {source : String} {c : Compiled}
    (made : compile engine source = .ok c) {before after : List Statement} {s : ArrayDecl}
    (parsed : Source.parse source = .ok (before ++ .array s :: after))
    (references : ∀ item ∈ s.values, ∃ name, item = .symbol .reference name) :
    ∃ r index values warnings map, before.foldlM Resolution.step { engine } = .ok r ∧
      r.nextIndex s.symbol s.index = .ok index ∧
      r.scope.expandAll s.values = .ok (values, warnings) ∧
      c.device.dictionary.get? index = some map ∧ map.kind = .array ∧ map.symbol = s.symbol ∧
      ∀ direction : Direction, direction.Covers index →
        map.direction? = some direction ∧
        ∃ entries packing, c.device.dictionary.mapEntries map = .ok entries ∧
          entries.map (fun sub => Value.int (Int64.ofNat sub.reference.toNat)) = values ∧
          (∀ sub ∈ entries, sub.access.contains direction.flag = true) ∧
          ProcessData.packMap c.device.dictionary map = .ok packing := by
  obtain ⟨statements, written, made⟩ := Except.bind_eq_ok made
  cases written.symm.trans parsed
  obtain ⟨final, steps, made⟩ := Except.bind_eq_ok made
  cases made
  have formedFinal := Resolution.steps_wellFormed steps
  rw [List.foldlM_append] at steps
  obtain ⟨r, stepsBefore, steps⟩ := Except.bind_eq_ok steps
  rw [List.foldlM_cons] at steps
  obtain ⟨next, declared, stepsAfter⟩ := Except.bind_eq_ok steps
  have formed := Resolution.steps_wellFormed stepsBefore
  obtain ⟨index, values, warnings, array, indexed, expanded, found, holds, resolves⟩ :=
    Resolution.declareArray_resolves formed (Resolution.steps_typed stepsBefore) references declared
  have grown := (Resolution.steps_changes stepsAfter).grown
  obtain ⟨map, foundMap, kept⟩ := grown.get? formedFinal found
  have holdsMap := holds.grown kept
  refine ⟨r, index, values, warnings, map, stepsBefore, indexed, expanded, foundMap, holdsMap.kind,
    holdsMap.symbol, ?_⟩
  intro direction covers
  have mapping := Direction.ofMapIndex?_of_covers covers
  obtain ⟨zeros, padded⟩ := holdsMap.padded
  obtain ⟨entries, read, same, all⟩ := Dictionary.entriesFrom_resolves padded
    fun value member => (resolves direction mapping value member).grown grown formedFinal
  obtain ⟨packing, packed⟩ := ProcessData.packMap_total read all
  have own : map.direction? = some direction := by
    rw [Object.direction?, (Dictionary.mem_of_get? foundMap).2]
    exact mapping
  exact ⟨own, entries, packing, read, same, fun sub member => (all sub member).marked, packed⟩

/-- A mapping with a pattern, a repeated entry and padding, and another mapping behind it. -/
def mappingSource : String :=
  "record read in @0x6000 { UINT level @5; REAL rate; };" ++
  " UDINT map[4] @0x1A00 = { &in.*, &in.level }; UDINT next[] = { &in.rate };"

def mappedRecord : RecordDecl :=
  { place := ⟨1, 1⟩, access := Access.read, symbol := "in", instances := [],
    index := some (.literal (.int 0x6000)), description := none, properties := [],
    fields := [
      { place := ⟨1, 26⟩, typeName := "UINT", access := Access.empty, symbol := "level",
        subindex := some (.literal (.int 5)), default := none, description := none },
      { place := ⟨1, 41⟩, typeName := "REAL", access := Access.empty, symbol := "rate",
        subindex := none, default := none, description := none }] }

def mappingArray : ArrayDecl :=
  { place := ⟨1, 55⟩, typeName := "UDINT", access := Access.empty, symbol := "map",
    size := some (.literal (.int 4)), index := some (.literal (.int 0x1A00)), description := none,
    properties := [], values := [.symbol .reference "in.*", .symbol .reference "in.level"] }

def nextArray : ArrayDecl :=
  { place := ⟨1, 100⟩, typeName := "UDINT", access := Access.empty, symbol := "next", size := none,
    index := none, description := none, properties := [],
    values := [.symbol .reference "in.rate"] }

def mappingStatements : List Statement :=
  [.record mappedRecord, .array mappingArray, .array nextArray]

theorem parse_mapping : Source.parse mappingSource = .ok mappingStatements := by
  cbv

theorem compile_mapping_resolves_sample :
    ∃ c map entries packing, compile .plain mappingSource = .ok c ∧
      c.device.dictionary.get? 0x1A00 = some map ∧
      c.device.dictionary.mapEntries map = .ok entries ∧
      entries.map (fun sub => Value.int (Int64.ofNat sub.reference.toNat)) =
        [.int 0x60000510, .int 0x60000620, .int 0x60000510] ∧
      (∀ sub ∈ entries, sub.access.contains Access.txPdo = true) ∧
      ProcessData.packMap c.device.dictionary map = .ok packing := by
  have compiles : (resolve .plain mappingStatements).toOption.isSome = true := by
    decide +kernel
  have expands : (List.foldlM Resolution.step { engine := .plain }
      [Statement.record mappedRecord]).toOption.map
      (fun r => ((r.nextIndex mappingArray.symbol mappingArray.index).toOption,
        (r.scope.expandAll mappingArray.values).toOption.map Prod.fst)) =
      some (some 0x1A00, some [.int 0x60000510, .int 0x60000620, .int 0x60000510]) := by
    decide +kernel
  have same : compile .plain mappingSource = resolve .plain mappingStatements := by
    rw [compile, parse_mapping]
    rfl
  have split : mappingStatements =
      List.append [Statement.record mappedRecord] (.array mappingArray :: [.array nextArray]) := rfl
  obtain ⟨c, made⟩ := Option.isSome_iff_exists.mp compiles
  rw [Except.eq_ok_of_toOption made] at same
  obtain ⟨r, index, values, warnings, map, before, indexed, expanded, found, -, -, resolves⟩ :=
    compile_mapping_resolves same (split ▸ parse_mapping) (by simp [mappingArray])
  simp only [before, indexed, expanded, Except.toOption, Option.map_some, Option.some.injEq,
    Prod.mk.injEq] at expands
  obtain ⟨rfl, rfl⟩ := expands
  obtain ⟨-, entries, packing, read, references, marked, packed⟩ :=
    resolves .transmit ⟨by decide, by decide⟩
  exact ⟨c, map, entries, packing, same, found, read, references, marked, packed⟩

end EcatDevice
