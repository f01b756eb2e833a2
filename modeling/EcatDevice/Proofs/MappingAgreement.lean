import EcatDevice.Proofs.MappingArrays
import EcatDevice.Proofs.Marks
import Mathlib

/-! # Marks and mappings

A mark of process data is made when a mapping array is declared, while the mapped sub-objects are
found by the entries of the finished dictionary. Both agree on everything that is declared before
the mappings: a sub-object that an array maps from its own place on is marked, and a mark that was
not declared comes from such a mapping. A mapping that comes before the object it refers to leaves
no mark.
-/

namespace EcatDevice

theorem Object.mem_references {o : Object} {reference : UInt32} :
    reference ∈ o.references ↔
      ∃ entry ∈ o.payload, entry.default.int?.bind MapRef.ofInt? = some reference := by
  rw [references, List.filterMap_filterMap, List.mem_filterMap]

namespace Dictionary

theorem entryReference_ok {map : Object} {entry : SubObject} {reference : UInt32} :
    entryReference map entry = .ok reference ↔
      entry.default.int?.bind MapRef.ofInt? = some reference := by
  unfold entryReference
  split
  · next given => rw [given, Except.ok.injEq, Option.some.injEq]
  · next none => simp [none]

theorem mem_entriesFrom {d : Dictionary} {map : Object} {entries found : List SubObject}
    (read : d.entriesFrom map entries = .ok found) {sub : SubObject} :
    sub ∈ found ↔ ∃ reference ≠ 0, d.find? reference = some sub ∧
      ∃ entry ∈ entries, entry.default.int?.bind MapRef.ofInt? = some reference := by
  induction entries generalizing found with
  | nil =>
      cases read
      simp
  | cons entry rest ih =>
      rw [entriesFrom] at read
      obtain ⟨reference, given, read⟩ := Except.bind_eq_ok read
      rw [entryReference_ok] at given
      simp only [List.exists_mem_cons_iff, given, Option.some.injEq]
      split at read
      · next reserved =>
          rw [ih read]
          grind
      · next used =>
          split at read
          · next first here =>
              obtain ⟨others, later, read⟩ := Except.bind_eq_ok read
              cases read
              rw [List.mem_cons, ih later]
              grind
          · cases read

/-- The entries of a mapping object are the sub-objects that its references name. -/
theorem mem_mapEntries {d : Dictionary} {map : Object} {entries : List SubObject}
    (read : d.mapEntries map = .ok entries) {sub : SubObject} :
    sub ∈ entries ↔ ∃ reference ∈ map.references, reference ≠ 0 ∧ d.find? reference = some sub := by
  rw [mem_entriesFrom read]
  simp only [Object.mem_references]
  grind

theorem find?_eq_some_iff_names {d : Dictionary} (formed : d.WellFormed) {o : Object}
    (member : o ∈ d.objects) {sub : SubObject} (part : sub ∈ o.subs) {reference : UInt32} :
    d.find? reference = some sub ↔ MapRef.names o.index sub.subindex reference = true := by
  have home := (formed.objects o member).home sub part
  rw [MapRef.names, Bool.and_eq_true, beq_iff_eq, beq_iff_eq, find?, Option.bind_eq_bind,
    Option.bind_eq_some_iff]
  constructor
  · rintro ⟨other, object, found⟩
    obtain ⟨present, own⟩ := mem_of_get? object
    obtain ⟨inside, place⟩ := Object.mem_of_sub? found
    exact ⟨by rw [← own, ← home, (formed.objects other present).home sub inside], place.symm⟩
  · rintro ⟨own, place⟩
    rw [own, place]
    exact ⟨o, get?_of_mem formed.distinct member, (formed.objects o member).sub?_of_mem part⟩

theorem mapped_entries {d : Dictionary} {direction : Direction} {subs : List SubObject}
    (mapped : d.mapped direction = .ok subs) {map : Object} (member : map ∈ d.objects)
    (mapping : map.direction? = some direction) :
    ∃ entries, d.mapEntries map = .ok entries ∧ ∀ sub ∈ entries, sub ∈ subs := by
  obtain ⟨parts, each, mapped⟩ := Except.bind_eq_ok mapped
  cases mapped
  have listed : map ∈ d.objects.filter fun object => object.direction? == some direction :=
    List.mem_filter.mpr ⟨member, by rw [mapping, beq_self_eq_true]⟩
  obtain ⟨i, place⟩ := List.mem_iff_getElem?.mp listed
  obtain ⟨entries, read, present⟩ := mapM_at each place
  refine ⟨entries, read, fun sub inside => ?_⟩
  exact List.mem_flatten.mpr ⟨entries, List.mem_of_getElem? present, inside⟩

/-- A mapping object of a direction has an entry for a sub-object. -/
def Refers (d : Dictionary) (direction : Direction) (map : Object) (sub : SubObject) : Prop :=
  map.direction? = some direction ∧ ∃ entries, d.mapEntries map = .ok entries ∧ sub ∈ entries

theorem refers_iff {d : Dictionary} (formed : d.WellFormed) {direction : Direction}
    {subs : List SubObject} (mapped : d.mapped direction = .ok subs) {map o : Object}
    (present : map ∈ d.objects) (member : o ∈ d.objects) {sub : SubObject} (part : sub ∈ o.subs) :
    d.Refers direction map sub ↔ map.direction? = some direction ∧
      ∃ reference ∈ map.references, reference ≠ 0 ∧
        MapRef.names o.index sub.subindex reference = true := by
  refine and_congr_right fun mapping => ?_
  obtain ⟨entries, read, -⟩ := mapped_entries mapped present mapping
  simp only [read, Except.ok.injEq, exists_eq_left', mem_mapEntries read,
    find?_eq_some_iff_names formed member part]

end Dictionary

theorem MapRef.names_zero {index : UInt16} {subindex : UInt8}
    (names : names index subindex 0 = true) : index = 0 ∧ subindex = 0 := by
  rw [MapRef.names, Bool.and_eq_true, beq_iff_eq, beq_iff_eq] at names
  exact ⟨names.1.symm, names.2.symm⟩

/-- A sub-object that a mapping array refers to is marked if the array is not declared before it,
and a mark that its declaration does not give means that a mapping refers to it; for the place
`0x0000:00`, which reserved slots spell, only the former. -/
theorem compile_marks_agree {engine : Regex.Engine} {source : String}
    {statements : List Statement} {c : Compiled}
    (parsed : Source.parse source = .ok statements) (made : compile engine source = .ok c)
    {direction : Direction} {subs : List SubObject}
    (mapped : c.device.dictionary.mapped direction = .ok subs)
    {p : Nat} {o : Object} (object : c.device.dictionary.objects[p]? = some o)
    {j : Nat} {sub : SubObject} (place : o.subs[j]? = some sub) :
    ∃ declared, (declaredAccesses statements)[p]? = some declared ∧
      ((declared j).contains direction.flag = true ∨
          (∃ q map, p ≤ q ∧ c.device.dictionary.objects[q]? = some map ∧ map.kind = .array ∧
            c.device.dictionary.Refers direction map sub) →
        sub.access.contains direction.flag = true) ∧
      (sub.access.contains direction.flag = true → sub.index ≠ 0 ∨ sub.subindex ≠ 0 →
        (declared j).contains direction.flag = true ∨
          sub ∈ subs ∧ ∃ q map, p ≤ q ∧ c.device.dictionary.objects[q]? = some map ∧
            c.device.dictionary.Refers direction map sub) := by
  obtain ⟨_, written, made⟩ := Except.bind_eq_ok made
  cases written.symm.trans parsed
  obtain ⟨r, steps, made⟩ := Except.bind_eq_ok made
  cases made
  have formed := Resolution.steps_wellFormed steps
  have member := List.mem_of_getElem? object
  have part := List.mem_of_getElem? place
  obtain ⟨declared, listed, access⟩ := (Resolution.steps_marked steps).access p o object
  refine ⟨declared, listed, ?_⟩
  rw [access j sub place, Access.or_contains_flag, Bool.or_eq_true, Dictionary.marksOf_contains]
  constructor
  · refine Or.imp_right ?_
    rintro ⟨q, map, behind, found, kind, refers⟩
    have present := List.mem_of_getElem? found
    obtain ⟨mapping, reference, given, -, names⟩ :=
      (Dictionary.refers_iff formed mapped present member part).mp refers
    refine ⟨map, ?_, Object.marks_contains.mpr ⟨kind, mapping, reference, given, names⟩⟩
    refine List.mem_of_getElem? (i := q - p) ?_
    rw [List.getElem?_drop, Nat.add_sub_cancel' behind]
    exact found
  · intro marked used
    refine marked.imp_right ?_
    rintro ⟨map, later, marks⟩
    obtain ⟨-, mapping, reference, given, names⟩ := Object.marks_contains.mp marks
    have present := List.mem_of_mem_drop later
    have nonzero : reference ≠ 0 := by
      rintro rfl
      obtain ⟨index, subindex⟩ := MapRef.names_zero names
      have home := (formed.objects o member).home sub part
      exact used.elim (· (home.trans index)) (· subindex)
    have refers := (Dictionary.refers_iff formed mapped present member part).mpr
      ⟨mapping, reference, given, nonzero, names⟩
    obtain ⟨entries, read, all⟩ := Dictionary.mapped_entries mapped present mapping
    obtain ⟨-, _, same, inside⟩ := refers
    cases read.symm.trans same
    obtain ⟨i, found⟩ := List.mem_iff_getElem?.mp later
    rw [List.getElem?_drop] at found
    exact ⟨all sub inside, p + i, map, Nat.le_add_right p i, found, mapping, entries, read, inside⟩

/-- The subindex at a place, whether what is there is mapped, and whether it is marked. -/
def Compiled.standing (c : Compiled) (direction : Direction) (p j : Nat) :
    Option (UInt8 × Bool × Bool) := do
  let subs ← (c.device.dictionary.mapped direction).toOption
  let o ← c.device.dictionary.objects[p]?
  let sub ← o.subs[j]?
  return (sub.subindex, decide (sub ∈ subs), sub.access.contains direction.flag)

theorem Compiled.standing_eq {c : Compiled} {direction : Direction} {p j : Nat} {subindex : UInt8}
    {mapped marked : Bool} (same : c.standing direction p j = some (subindex, mapped, marked)) :
    ∃ subs o sub, c.device.dictionary.mapped direction = .ok subs ∧
      c.device.dictionary.objects[p]? = some o ∧ o.subs[j]? = some sub ∧ sub.subindex = subindex ∧
      decide (sub ∈ subs) = mapped ∧ sub.access.contains direction.flag = marked := by
  obtain ⟨subs, given, same⟩ := Option.bind_eq_some_iff.mp same
  obtain ⟨o, object, same⟩ := Option.bind_eq_some_iff.mp same
  obtain ⟨sub, place, same⟩ := Option.bind_eq_some_iff.mp same
  cases same
  exact ⟨subs, o, sub, Except.eq_ok_of_toOption given, object, place, rfl, rfl, rfl⟩

theorem compile_marks_agree_sample :
    ∃ c subs o sub, compile .plain mappingSource = .ok c ∧
      c.device.dictionary.mapped .transmit = .ok subs ∧
      c.device.dictionary.objects[0]? = some o ∧ o.subs[1]? = some sub ∧
      sub.access.contains Access.txPdo = true ∧ sub ∈ subs ∧
      ∃ q map, 0 ≤ q ∧ c.device.dictionary.objects[q]? = some map ∧
        c.device.dictionary.Refers .transmit map sub := by
  have found : (resolve .plain mappingStatements).toOption.bind
      (·.standing .transmit 0 1) = some (5, true, true) := by
    decide +kernel
  obtain ⟨c, made, found⟩ := Option.bind_eq_some_iff.mp found
  have same : compile .plain mappingSource = .ok c := by
    rw [compile, parse_mapping]
    exact Except.eq_ok_of_toOption made
  obtain ⟨subs, o, sub, mapped, object, place, subindex, -, marked⟩ := Compiled.standing_eq found
  obtain ⟨declared, listed, -, converse⟩ :=
    compile_marks_agree parse_mapping same mapped object place
  cases listed
  have used : sub.subindex ≠ 0 := by
    rw [subindex]
    decide
  rcases converse marked (Or.inr used) with early | ⟨member, refers⟩
  · exact absurd early (by decide)
  · exact ⟨c, subs, o, sub, same, mapped, object, place, marked, member, refers⟩

/-- A mapping that refers to an object which is declared after it. -/
def earlyMapping : List Statement :=
  [.array
    { place := ⟨1, 1⟩, typeName := "UDINT", access := Access.empty, symbol := "map", size := none,
      index := some (.literal (.int 0x1600)), description := none, properties := [],
      values := [.literal (.int 0x20000010)] },
   .variable
    { place := ⟨1, 39⟩, typeName := "UINT", access := Access.empty, symbol := "level",
      index := some (.literal (.int 0x2000)), default := none, description := none,
      properties := [] }]

theorem parse_earlyMapping :
    Source.parse "UDINT map[] @0x1600 = { 0x20000010 }; UINT level @0x2000;" =
      .ok earlyMapping := by
  cbv

theorem mapped_unmarked :
    ¬ ∀ (source : String) (statements : List Statement) (c : Compiled) (direction : Direction)
      (subs : List SubObject) (p j : Nat) (o : Object) (sub : SubObject) (declared : Nat → Access),
      Source.parse source = .ok statements → compile .plain source = .ok c →
      c.device.dictionary.mapped direction = .ok subs →
      c.device.dictionary.objects[p]? = some o → o.subs[j]? = some sub →
      (declaredAccesses statements)[p]? = some declared →
      (sub.access.contains direction.flag = true ↔
        (declared j).contains direction.flag = true ∨ sub ∈ subs) := by
  intro agree
  have found : (resolve .plain earlyMapping).toOption.bind
      (·.standing .receive 1 0) = some (0, true, false) := by
    decide +kernel
  obtain ⟨c, made, found⟩ := Option.bind_eq_some_iff.mp found
  have same :
      compile .plain "UDINT map[] @0x1600 = { 0x20000010 }; UINT level @0x2000;" = .ok c := by
    rw [compile, parse_earlyMapping]
    exact Except.eq_ok_of_toOption made
  obtain ⟨subs, o, sub, mapped, object, place, -, listed, unmarked⟩ := Compiled.standing_eq found
  have marked := (agree _ _ c .receive subs 1 0 o sub _ parse_earlyMapping same mapped object
    place rfl).mpr (Or.inr (of_decide_eq_true listed))
  exact Bool.false_ne_true (unmarked.symm.trans marked)

end EcatDevice
