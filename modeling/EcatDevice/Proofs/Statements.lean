import EcatDevice.Proofs.Checked
import EcatDevice.Proofs.DictionaryChanges

/-! # Declarations step by step

What has happened in a declaration that succeeds: everything that was evaluated with its value, what
was built from the values, and the state behind. Annotations change nothing but the names, and an
insertion changes nothing but the dictionary and the last index. No declaration changes the engine
or the directives.
-/

namespace EcatDevice.Resolution

theorem annotate_frame {symbol : String} {properties : List Property} {r next : Resolution}
    {before after : ValueMap} (made : annotate symbol properties r before = .ok (next, after)) :
    next = { r with symbols := next.symbols } := by
  induction properties generalizing r before with
  | nil =>
      cases made
      rfl
  | cons property rest ih =>
      rw [annotate] at made
      obtain ⟨value, _, made⟩ := Except.bind_eq_ok made
      have same := ih made
      exact same

theorem insert_frame {r next : Resolution} {object : Object} (made : r.insert object = .ok next) :
    next = { r with dictionary := next.dictionary, lastIndex := object.index } := by
  obtain ⟨_, _, made⟩ := Except.bind_eq_ok made
  obtain ⟨dictionary, _, made⟩ := Except.bind_eq_ok made
  cases made
  rfl

/-- The engine and the directives are the same. -/
structure Apart (r next : Resolution) : Prop where
  engine : next.engine = r.engine
  makes : next.makes = r.makes

theorem Apart.trans {r middle next : Resolution} (first : Apart r middle)
    (second : Apart middle next) : Apart r next :=
  ⟨second.engine.trans first.engine, second.makes.trans first.makes⟩

theorem annotate_apart {symbol : String} {properties : List Property} {r next : Resolution}
    {before after : ValueMap} (made : annotate symbol properties r before = .ok (next, after)) :
    Apart r next := by
  rw [annotate_frame made]
  exact ⟨rfl, rfl⟩

theorem insert_apart {r next : Resolution} {object : Object} (made : r.insert object = .ok next) :
    Apart r next := by
  rw [insert_frame made]
  exact ⟨rfl, rfl⟩

theorem tags_frame (symbol : String) (direction : Direction) (entries : List Int64)
    (r : Resolution) :
    (entries.foldl (tag symbol direction) r).lastIndex = r.lastIndex ∧
      Apart r (entries.foldl (tag symbol direction) r) := by
  induction entries generalizing r with
  | nil => exact ⟨rfl, rfl, rfl⟩
  | cons entry rest ih =>
      have one : (tag symbol direction r entry).lastIndex = r.lastIndex ∧
          Apart r (tag symbol direction r entry) := by
        unfold tag
        split
        · split
          · exact ⟨rfl, rfl, rfl⟩
          · split <;> exact ⟨rfl, rfl, rfl⟩
        · exact ⟨rfl, rfl, rfl⟩
      exact ⟨(ih _).1.trans one.1, one.2.trans (ih _).2⟩

theorem declareVariable_ok {r next : Resolution} {s : VariableDecl}
    (made : r.declareVariable s = .ok next) :
    ∃ t index default annotated properties added,
      BasicType.find s.typeName = .ok t ∧ r.nextIndex s.symbol s.index = .ok index ∧
      r.scope.evalDefault s.default = .ok default ∧
      annotate s.symbol s.properties r ∅ = .ok (annotated, properties) ∧
      annotated.insert { Object.single index s.symbol
        (s.description.getD (Object.defaultDescription index)) s.access t default with
        properties } = .ok added ∧
      next = added.publish s.symbol (.object index) := by
  unfold declareVariable at made
  obtain ⟨t, listed, made⟩ := Except.bind_eq_ok made
  obtain ⟨index, indexed, made⟩ := Except.bind_eq_ok made
  obtain ⟨default, evaluated, made⟩ := Except.bind_eq_ok made
  obtain ⟨⟨annotated, properties⟩, notes, made⟩ := Except.bind_eq_ok made
  obtain ⟨added, inserted, made⟩ := Except.bind_eq_ok made
  cases made
  exact ⟨t, index, default, annotated, properties, added, listed, indexed, evaluated, notes,
    inserted, rfl⟩

theorem declareArray_size {r next : Resolution} {s : ArrayDecl}
    (made : r.declareArray s = .ok next) :
    ∃ size, s.size.mapM (r.scope.evalNat (s.symbol ++ " size") 0xffffffffffffffff) = .ok size := by
  unfold declareArray at made
  obtain ⟨_, _, made⟩ := Except.bind_eq_ok made
  obtain ⟨_, _, made⟩ := Except.bind_eq_ok made
  obtain ⟨size, evaluated, _⟩ := Except.bind_eq_ok made
  exact ⟨size, evaluated⟩

theorem addField_ok {access : Access} {symbol description : String} {index : UInt16}
    {p next : Pending} {field : FieldDecl}
    (made : addField access symbol description index p field = .ok next) :
    ∃ subindex default basicType object,
      field.subindex.mapM ((p.resolution.scopeWith p.object).evalNat
        (symbol ++ "." ++ field.symbol ++ " subindex") 0xff) = .ok subindex ∧
      (p.resolution.scopeWith p.object).evalDefault field.default = .ok default ∧
      BasicType.find field.typeName = .ok basicType ∧
      Object.record index symbol description next.fields = .ok object ∧
      next.fields = p.fields ++ [{
        subindex := subindex.map UInt8.ofNat, access := field.access ||| access, basicType,
        symbol := field.symbol, default, description := field.description }] ∧
      next.object = object ∧
      next.resolution = p.resolution.publish (symbol ++ "." ++ field.symbol)
        (.sub index object.maxSubindex) := by
  unfold addField at made
  obtain ⟨subindex, placed, made⟩ := Except.bind_eq_ok made
  obtain ⟨default, evaluated, made⟩ := Except.bind_eq_ok made
  obtain ⟨basicType, listed, made⟩ := Except.bind_eq_ok made
  obtain ⟨object, record, made⟩ := Except.bind_eq_ok made
  cases made
  exact ⟨subindex, default, basicType, object, placed, evaluated, listed, record, rfl, rfl, rfl⟩

theorem recordObject_ok {s : RecordDecl} {symbol description : String} {index : UInt16}
    {r next : Resolution} (made : recordObject s symbol description index r = .ok next) :
    ∃ object done annotated properties,
      Object.record index symbol description [] = .ok object ∧
      s.fields.foldlM (addField s.access symbol description index)
        { resolution := r.publish symbol (.object index), fields := [], object } = .ok done ∧
      annotate symbol s.properties done.resolution ∅ = .ok (annotated, properties) ∧
      annotated.insert { done.object with properties } = .ok next := by
  unfold recordObject at made
  obtain ⟨object, record, made⟩ := Except.bind_eq_ok made
  obtain ⟨done, fields, made⟩ := Except.bind_eq_ok made
  obtain ⟨⟨annotated, properties⟩, notes, inserted⟩ := Except.bind_eq_ok made
  exact ⟨object, done, annotated, properties, record, fields, notes, inserted⟩

theorem recordObject_apart {s : RecordDecl} {symbol description : String} {index : UInt16}
    {r next : Resolution} (made : recordObject s symbol description index r = .ok next) :
    Apart r next := by
  obtain ⟨object, done, annotated, properties, -, fields, notes, inserted⟩ := recordObject_ok made
  have kept : Apart r done.resolution := by
    refine foldlM_keeps (P := fun p : Pending => Apart r p.resolution) ?_ ⟨rfl, rfl⟩ fields
    intro p field next _ same added
    obtain ⟨_, _, _, _, -, -, -, -, -, -, published⟩ := addField_ok added
    rw [published]
    exact ⟨same.engine, same.makes⟩
  exact kept.trans ((annotate_apart notes).trans (insert_apart inserted))

theorem recordInstances_apart {s : RecordDecl} {position : Nat} {instances : List Instance}
    {r next : Resolution} (made : recordInstances s position instances r = .ok next) :
    Apart r next := by
  induction instances generalizing position r with
  | nil =>
      cases made
      exact ⟨rfl, rfl⟩
  | cons i rest ih =>
      rw [recordInstances] at made
      obtain ⟨index, _, made⟩ := Except.bind_eq_ok made
      obtain ⟨one, first, made⟩ := Except.bind_eq_ok made
      exact (recordObject_apart first).trans (ih made)

/-- A statement keeps the engine, and the directives in front of its own. -/
theorem step_apart {r next : Resolution} {s : Statement} (made : r.step s = .ok next) :
    next.engine = r.engine ∧ r.makes <+: next.makes := by
  have declared : Apart r next → next.engine = r.engine ∧ r.makes <+: next.makes :=
    fun apart => ⟨apart.engine, apart.makes ▸ List.prefix_rfl⟩
  cases s with
  | make directive =>
      cases made
      exact ⟨rfl, List.prefix_append _ _⟩
  | assign s =>
      obtain ⟨value, _, made⟩ := Except.bind_eq_ok made
      cases made
      exact declared ⟨rfl, rfl⟩
  | «variable» s =>
      obtain ⟨_, _, _, annotated, _, added, -, -, -, notes, inserted, rfl⟩ :=
        declareVariable_ok made
      have apart := (annotate_apart notes).trans (insert_apart inserted)
      exact declared ⟨apart.engine, apart.makes⟩
  | array s =>
      obtain ⟨_, index, _, _, _, _, annotated, _, added, -, -, -, -, notes, inserted, rfl⟩ :=
        declareArray_ok made
      have apart := (annotate_apart notes).trans (insert_apart inserted)
      have named : Apart r (added.publish s.symbol (.object index)) := ⟨apart.engine, apart.makes⟩
      refine declared ?_
      split
      · exact named.trans (tags_frame _ _ _ _).2
      · exact named
  | record s =>
      dsimp only [step, declareRecord] at made
      split at made
      · obtain ⟨index, _, made⟩ := Except.bind_eq_ok made
        exact declared (recordObject_apart made)
      · have apart := recordInstances_apart made
        exact declared ⟨apart.engine, apart.makes⟩

theorem steps_apart {statements : List Statement} {r next : Resolution}
    (made : statements.foldlM step r = .ok next) :
    next.engine = r.engine ∧ r.makes <+: next.makes := by
  refine foldlM_keeps
    (P := fun state : Resolution => state.engine = r.engine ∧ r.makes <+: state.makes) ?_
    ⟨rfl, List.prefix_rfl⟩ made
  intro state s next _ before stepped
  obtain ⟨same, behind⟩ := step_apart stepped
  exact ⟨same.trans before.1, before.2.trans behind⟩

end EcatDevice.Resolution
