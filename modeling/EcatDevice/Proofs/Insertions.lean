import EcatDevice.Proofs.Statements

/-! # What a program inserts

Every declaration constructs its objects completely before it inserts them. The objects are computed
here without the insertion: from the state in which the declaration is met, or for a later group of
a record template, from the state behind the groups before it. A declaration that succeeds inserts
just these objects, and nothing else enters the dictionary.
-/

namespace EcatDevice.Resolution

/-! ## Objects of declarations -/

/-- The object that a declaration of a variable inserts. -/
def variableOf (r : Resolution) (s : VariableDecl) : Except Error Object := do
  let t ← BasicType.find s.typeName
  let index ← r.nextIndex s.symbol s.index
  let default ← r.scope.evalDefault s.default
  let description := s.description.getD (Object.defaultDescription index)
  let (_, properties) ← annotate s.symbol s.properties r ∅
  return { Object.single index s.symbol description s.access t default with properties }

/-- The object that a declaration of an array inserts. -/
def arrayOf (r : Resolution) (s : ArrayDecl) : Except Error Object := do
  let t ← BasicType.find s.typeName
  let index ← r.nextIndex s.symbol s.index
  let size ← s.size.mapM (r.scope.evalNat (s.symbol ++ " size") 0xffffffffffffffff)
  let (values, warnings) ← r.scope.expandAll s.values
  let description := s.description.getD (Object.defaultDescription index)
  let object ← Object.array index s.symbol description s.access t size values
  let (_, properties) ← annotate s.symbol s.properties (r.warn warnings) ∅
  return { object with properties }

/-- The object that a record declaration inserts at an index. -/
def recordOf (s : RecordDecl) (symbol description : String) (index : UInt16) (r : Resolution) :
    Except Error Object := do
  let object ← Object.record index symbol description []
  let start : Pending := { resolution := r.publish symbol (.object index), fields := [], object }
  let done ← s.fields.foldlM (addField s.access symbol description index) start
  let (_, properties) ← annotate symbol s.properties done.resolution ∅
  return { done.object with properties }

/-- The objects that the groups of a record template insert, numbered from `position`. -/
def instancesOf (s : RecordDecl) : Nat → List Instance → Resolution → Except Error (List Object)
  | _, [], _ => .ok []
  | position, i :: rest, r => do
    let symbol := s.symbol ++ "_" ++ Text.decimal position
    let index ← r.scope.evalIndex (symbol ++ " index") i.index
    let object ← recordOf s symbol i.description index r
    let next ← recordObject s symbol i.description index r
    return object :: (← instancesOf s (position + 1) rest next)

/-- The objects that a statement inserts, in order. -/
def objectsOf (r : Resolution) : Statement → Except Error (List Object)
  | .make _ => .ok []
  | .assign _ => .ok []
  | .variable s => return [← r.variableOf s]
  | .array s => return [← r.arrayOf s]
  | .record s =>
    if s.instances.isEmpty then do
      let index ← r.nextIndex s.symbol s.index
      return [← recordOf s s.symbol (s.description.getD (Object.defaultDescription index)) index r]
    else
      let ignored := s.index.isSome || s.description.isSome
      instancesOf s 0 s.instances (r.warn (if ignored then [.ignored s.symbol] else []))

/-- The objects that statements insert, in order. -/
def insertions : Resolution → List Statement → Except Error (List Object)
  | _, [] => .ok []
  | r, s :: rest => do
    let objects ← r.objectsOf s
    let next ← r.step s
    return objects ++ (← insertions next rest)

/-! ## Insertion -/

theorem declareVariable_insert {r next : Resolution} {s : VariableDecl}
    (made : r.declareVariable s = .ok next) :
    ∃ (object : Object) (annotated added : Resolution), r.variableOf s = .ok object ∧
      annotated.dictionary = r.dictionary ∧ annotated.insert object = .ok added ∧
      next = added.publish s.symbol (.object object.index) := by
  obtain ⟨t, index, default, annotated, properties, added, listed, indexed, evaluated, notes,
    inserted, after⟩ := declareVariable_ok made
  refine ⟨_, annotated, added, ?_, annotate_dictionary notes, inserted, after⟩
  simp only [variableOf, listed, indexed, evaluated, notes, bind, Except.bind]
  rfl

/-- An array is inserted before it marks what it refers to. -/
theorem declareArray_insert {r next : Resolution} {s : ArrayDecl}
    (made : r.declareArray s = .ok next) :
    ∃ (object : Object) (annotated added : Resolution), r.arrayOf s = .ok object ∧
      annotated.dictionary = r.dictionary ∧ annotated.insert object = .ok added ∧
      next = match object.direction? with
        | some direction =>
          (object.payload.filterMap (·.default.int?)).foldl (tag s.symbol direction)
            (added.publish s.symbol (.object object.index))
        | none => added.publish s.symbol (.object object.index) := by
  unfold declareArray at made
  obtain ⟨t, listed, made⟩ := Except.bind_eq_ok made
  obtain ⟨index, indexed, made⟩ := Except.bind_eq_ok made
  obtain ⟨size, sized, made⟩ := Except.bind_eq_ok made
  obtain ⟨⟨values, warnings⟩, expanded, made⟩ := Except.bind_eq_ok made
  obtain ⟨object, array, made⟩ := Except.bind_eq_ok made
  obtain ⟨⟨annotated, properties⟩, notes, made⟩ := Except.bind_eq_ok made
  obtain ⟨added, inserted, made⟩ := Except.bind_eq_ok made
  cases made
  refine ⟨{ object with properties }, annotated, added, ?_, ?_, inserted, ?_⟩
  · simp only [arrayOf, listed, indexed, sized, expanded, array, notes, bind, Except.bind]
    rfl
  · rw [annotate_dictionary notes]
    rfl
  · obtain ⟨-, -, -, rfl, -⟩ := Object.array_subs array
    rfl

theorem recordObject_insert {s : RecordDecl} {symbol description : String} {index : UInt16}
    {r next : Resolution} (made : recordObject s symbol description index r = .ok next) :
    ∃ (object : Object) (annotated : Resolution),
      recordOf s symbol description index r = .ok object ∧
      annotated.dictionary = r.dictionary ∧ annotated.insert object = .ok next := by
  obtain ⟨object, done, annotated, properties, record, fields, notes, inserted⟩ :=
    recordObject_ok made
  have kept : done.Kept index symbol description r.dictionary := addFields_kept ⟨rfl, record⟩ fields
  refine ⟨_, annotated, ?_, (annotate_dictionary notes).trans kept.dictionary, inserted⟩
  simp only [recordOf, record, fields, notes, bind, Except.bind]
  rfl

end EcatDevice.Resolution
