import EcatDevice.Proofs.ObjectShape
import EcatDevice.Resolution
import Mathlib.Logic.Relation

/-! # Changes of the dictionary

A dictionary changes in two ways only: an object is inserted, or a sub-object is marked. Every
statement of a program and every synthesized mapping is a row of such changes, and it inserts
nothing but objects that were built and whose default values have an encoding.
-/

namespace EcatDevice

namespace Dictionary

/-- A single change. Objects that are inserted satisfy `accept`. -/
inductive Change (accept : Object → Prop) : Dictionary → Dictionary → Prop where
  | insert {d next : Dictionary} {object : Object} :
      accept object → d.insert object = .ok next → Change accept d next
  | grant {d : Dictionary} (reference : UInt32) (access : Access) :
      Change accept d (d.grant reference access)

abbrev Changes (accept : Object → Prop) : Dictionary → Dictionary → Prop :=
  Relation.ReflTransGen (Change accept)

def Accepted (o : Object) : Prop :=
  o.Built ∧ o.Encodes

theorem Changes.weaken {accept other : Object → Prop} (all : ∀ o, accept o → other o)
    {d next : Dictionary} (changes : Changes accept d next) : Changes other d next := by
  refine Relation.ReflTransGen.mono ?_ _ _ changes
  intro d next change
  cases change with
  | insert accepted made => exact .insert (all _ accepted) made
  | grant reference access => exact .grant reference access

theorem foldl_grant_changes (accept : Object → Prop) (references : List SubObject) (access : Access)
    (d : Dictionary) :
    Changes accept d (references.foldl (fun d sub => d.grant sub.reference access) d) := by
  induction references generalizing d with
  | nil => exact .refl
  | cons sub rest ih => exact (ih _).head (.grant sub.reference access)

/-! ## Synthesis of mappings -/

/-- A mapping reference fits the type of the field that holds it. -/
theorem mapField_encodes (source sub : SubObject)
    (sameType : sub.basicType = (mapField source).basicType)
    (sameDefault : sub.default = (mapField source).default) : sub.Encodes := by
  have small := source.reference.toNat_lt
  have value : (Int64.ofNat source.reference.toNat).toInt = source.reference.toNat :=
    Int64.toInt_ofNat_of_lt (by omega)
  have encoding : sub.basicType.encoding = .unsigned 4 := by rw [sameType]; rfl
  refine Object.unsigned_encodes encoding sameDefault ?_ ?_
  · omega
  · rw [value]
    exact_mod_cast small

theorem synthesizeMap_changes {d next : Dictionary} {mapIndex sourceIndex : UInt16}
    (made : d.synthesizeMap mapIndex sourceIndex = .ok next) : Changes Accepted d next := by
  unfold synthesizeMap at made
  split at made
  · cases made
  · next direction _ =>
      split at made
      · cases made
      · next source _ =>
          obtain ⟨map, record, made⟩ := Except.bind_eq_ok made
          obtain ⟨added, inserted, made⟩ := Except.bind_eq_ok made
          cases made
          have accepted : Accepted map := by
            refine ⟨.record map.properties record, Object.record_encodes record ?_⟩
            intro field member sub
            obtain ⟨origin, _, rfl⟩ := List.mem_map.mp member
            exact mapField_encodes origin sub
          exact (foldl_grant_changes Accepted source.payload direction.flag added).head
            (.insert accepted inserted)

end Dictionary

/-! ## Statements -/

namespace Resolution

open Dictionary (Accepted Change Changes)

theorem annotate_dictionary {symbol : String} {properties : List Property} {r next : Resolution}
    {before after : ValueMap} (made : annotate symbol properties r before = .ok (next, after)) :
    next.dictionary = r.dictionary := by
  induction properties generalizing r before with
  | nil =>
      cases made
      rfl
  | cons property rest ih =>
      rw [annotate] at made
      obtain ⟨value, _, made⟩ := Except.bind_eq_ok made
      have same := ih made
      exact same

theorem encodes_of_mapM {subs : List SubObject} {all : List Bytes}
    (made : subs.mapM SubObject.encodedDefault = .ok all) : ∀ sub ∈ subs, sub.Encodes := by
  induction subs generalizing all with
  | nil => exact List.forall_mem_nil _
  | cons sub rest ih =>
      rw [List.mapM_cons] at made
      obtain ⟨bytes, first, made⟩ := Except.bind_eq_ok made
      obtain ⟨others, later, made⟩ := Except.bind_eq_ok made
      exact List.forall_mem_cons.mpr ⟨⟨bytes, first⟩, ih later⟩

theorem insert_change {r next : Resolution} {object : Object} (built : object.Built)
    (made : r.insert object = .ok next) : Change Accepted r.dictionary next.dictionary := by
  obtain ⟨all, encoded, made⟩ := Except.bind_eq_ok made
  obtain ⟨dictionary, inserted, made⟩ := Except.bind_eq_ok made
  cases made
  exact .insert ⟨built, encodes_of_mapM encoded⟩ inserted

theorem declareVariable_changes {r next : Resolution} {s : VariableDecl}
    (made : r.declareVariable s = .ok next) :
    Changes Accepted r.dictionary next.dictionary := by
  unfold declareVariable at made
  obtain ⟨t, _, made⟩ := Except.bind_eq_ok made
  obtain ⟨index, _, made⟩ := Except.bind_eq_ok made
  obtain ⟨default, _, made⟩ := Except.bind_eq_ok made
  obtain ⟨⟨annotated, properties⟩, notes, made⟩ := Except.bind_eq_ok made
  obtain ⟨added, inserted, made⟩ := Except.bind_eq_ok made
  have change := insert_change (.single _ _ _ _ _ _ properties) inserted
  cases made
  rw [annotate_dictionary notes] at change
  exact .single change

theorem tag_changes (symbol : String) (direction : Direction) (entries : List Int64)
    (r : Resolution) :
    Changes Accepted r.dictionary (entries.foldl (tag symbol direction) r).dictionary := by
  induction entries generalizing r with
  | nil => exact .refl
  | cons entry rest ih =>
      refine Relation.ReflTransGen.trans ?_ (ih _)
      unfold tag
      split
      · split
        · exact .single (.grant _ _)
        · split <;> exact .refl
      · exact .refl

/-- What happens in the declaration of an array, step by step. -/
theorem declareArray_ok {r next : Resolution} {s : ArrayDecl}
    (made : r.declareArray s = .ok next) :
    ∃ t index size values warnings object annotated properties added,
      BasicType.find s.typeName = .ok t ∧ r.nextIndex s.symbol s.index = .ok index ∧
      r.scope.expandAll s.values = .ok (values, warnings) ∧
      Object.array index s.symbol (s.description.getD (Object.defaultDescription index)) s.access t
        size values = .ok object ∧
      annotate s.symbol s.properties (r.warn warnings) ∅ = .ok (annotated, properties) ∧
      annotated.insert { object with properties } = .ok added ∧
      next = match Direction.ofMapIndex? index with
        | some direction =>
          (object.payload.filterMap (·.default.int?)).foldl (tag s.symbol direction)
            (added.publish s.symbol (.object index))
        | none => added.publish s.symbol (.object index) := by
  unfold declareArray at made
  obtain ⟨t, listed, made⟩ := Except.bind_eq_ok made
  obtain ⟨index, indexed, made⟩ := Except.bind_eq_ok made
  obtain ⟨size, _, made⟩ := Except.bind_eq_ok made
  obtain ⟨⟨values, warnings⟩, expanded, made⟩ := Except.bind_eq_ok made
  obtain ⟨object, array, made⟩ := Except.bind_eq_ok made
  obtain ⟨⟨annotated, properties⟩, notes, made⟩ := Except.bind_eq_ok made
  obtain ⟨added, inserted, made⟩ := Except.bind_eq_ok made
  cases made
  exact ⟨t, index, size, values, warnings, object, annotated, properties, added, listed, indexed,
    expanded, array, notes, inserted, rfl⟩

theorem declareArray_changes {r next : Resolution} {s : ArrayDecl}
    (made : r.declareArray s = .ok next) : Changes Accepted r.dictionary next.dictionary := by
  obtain ⟨t, index, size, values, warnings, object, annotated, properties, added, -, -, -, array,
    notes, inserted, rfl⟩ := declareArray_ok made
  have change := insert_change (.array properties array) inserted
  rw [annotate_dictionary notes] at change
  refine .trans (.single change) ?_
  split
  · exact tag_changes _ _ _ (added.publish s.symbol (.object index))
  · exact .refl

/-! ## Records -/

/-- A record under construction is the record of its fields, and the dictionary waits. -/
structure Pending.Kept (index : UInt16) (symbol description : String) (d : Dictionary)
    (p : Pending) : Prop where
  dictionary : p.resolution.dictionary = d
  object : Object.record index symbol description p.fields = .ok p.object

theorem addField_kept {access : Access} {symbol description : String} {index : UInt16}
    {d : Dictionary} {p next : Pending} {field : FieldDecl}
    (kept : p.Kept index symbol description d)
    (made : addField access symbol description index p field = .ok next) :
    next.Kept index symbol description d := by
  unfold addField at made
  obtain ⟨subindex, _, made⟩ := Except.bind_eq_ok made
  obtain ⟨default, _, made⟩ := Except.bind_eq_ok made
  obtain ⟨t, _, made⟩ := Except.bind_eq_ok made
  obtain ⟨object, record, made⟩ := Except.bind_eq_ok made
  cases made
  exact ⟨kept.dictionary, record⟩

theorem addFields_kept {access : Access} {symbol description : String} {index : UInt16}
    {d : Dictionary} {fields : List FieldDecl} {p next : Pending}
    (kept : p.Kept index symbol description d)
    (made : fields.foldlM (addField access symbol description index) p = .ok next) :
    next.Kept index symbol description d := by
  induction fields generalizing p with
  | nil =>
      cases made
      exact kept
  | cons field rest ih =>
      rw [List.foldlM_cons] at made
      obtain ⟨one, first, made⟩ := Except.bind_eq_ok made
      exact ih (addField_kept kept first) made

theorem recordObject_change {s : RecordDecl} {symbol description : String} {index : UInt16}
    {r next : Resolution} (made : recordObject s symbol description index r = .ok next) :
    Change Accepted r.dictionary next.dictionary := by
  unfold recordObject at made
  obtain ⟨object, record, made⟩ := Except.bind_eq_ok made
  obtain ⟨done, fields, made⟩ := Except.bind_eq_ok made
  obtain ⟨⟨annotated, properties⟩, notes, inserted⟩ := Except.bind_eq_ok made
  have kept : done.Kept index symbol description r.dictionary := addFields_kept ⟨rfl, record⟩ fields
  rw [← kept.dictionary, ← annotate_dictionary notes]
  exact insert_change (.record properties kept.object) inserted

theorem recordInstances_changes {s : RecordDecl} {position : Nat} {instances : List Instance}
    {r next : Resolution} (made : recordInstances s position instances r = .ok next) :
    Changes Accepted r.dictionary next.dictionary := by
  induction instances generalizing position r with
  | nil =>
      cases made
      exact .refl
  | cons i rest ih =>
      rw [recordInstances] at made
      obtain ⟨index, _, made⟩ := Except.bind_eq_ok made
      obtain ⟨one, first, made⟩ := Except.bind_eq_ok made
      exact (ih made).head (recordObject_change first)

/-! ## Programs -/

theorem step_changes {r next : Resolution} {s : Statement} (made : r.step s = .ok next) :
    Changes Accepted r.dictionary next.dictionary := by
  cases s with
  | make directive =>
      cases made
      exact .refl
  | assign s =>
      obtain ⟨value, _, made⟩ := Except.bind_eq_ok made
      cases made
      exact .refl
  | «variable» s => exact declareVariable_changes made
  | array s => exact declareArray_changes made
  | record s =>
      dsimp only [step, declareRecord] at made
      split at made
      · obtain ⟨index, _, made⟩ := Except.bind_eq_ok made
        exact .single (recordObject_change made)
      · have changes := recordInstances_changes made
        exact changes

/-- Statements change the dictionary by insertions and marks only. -/
theorem steps_changes {statements : List Statement} {r next : Resolution}
    (made : statements.foldlM step r = .ok next) :
    Changes Accepted r.dictionary next.dictionary := by
  induction statements generalizing r with
  | nil =>
      cases made
      exact .refl
  | cons s rest ih =>
      rw [List.foldlM_cons] at made
      obtain ⟨one, first, made⟩ := Except.bind_eq_ok made
      exact (step_changes first).trans (ih made)

end Resolution

/-- A compiled dictionary comes out of the empty one by insertions and marks. -/
theorem compile_changes {engine : Regex.Engine} {source : String} {c : Compiled}
    (made : compile engine source = .ok c) :
    Dictionary.Changes Dictionary.Accepted Dictionary.empty c.device.dictionary := by
  obtain ⟨statements, _, made⟩ := Except.bind_eq_ok made
  obtain ⟨r, steps, made⟩ := Except.bind_eq_ok made
  cases made
  exact Resolution.steps_changes steps

end EcatDevice
