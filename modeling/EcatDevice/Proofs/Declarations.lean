import EcatDevice.Proofs.Checked
import EcatDevice.Proofs.RecordFields

/-! # What statements declare

Marks aside, a statement declares objects one by one or none at all. An object that is declared
comes behind the others at an index of its own, its types are from the catalog, and each name that
enters the symbol table with it is a plain value or a name that the object gives: its own symbol, or
the qualified symbol of one of its fields.
-/

namespace EcatDevice

theorem BasicType.mem_of_find {name : String} {t : BasicType} (found : find name = .ok t) :
    t ∈ catalog := by
  unfold find at found
  split at found
  · next same =>
      cases found
      exact List.mem_of_find?_eq_some same
  · cases found

def Entity.IsLiteral : Entity → Prop
  | .literal _ => True
  | _ => False

namespace Object

/-- All types are from the catalog. -/
def Typed (o : Object) : Prop :=
  ∀ sub ∈ o.subs, sub.basicType ∈ BasicType.catalog

/-- The name that an object gives to an entity. -/
def Names (o : Object) (name : String) : Entity → Prop
  | .object index => o.index = index ∧ o.symbol = name
  | .sub index subindex =>
    o.index = index ∧ o.kind = .record ∧ 0 < subindex ∧
      ∃ sub ∈ o.subs, sub.subindex = subindex ∧ o.symbol ++ "." ++ sub.symbol = name
  | .literal _ => False

theorem typed_unmarked (o : Object) : o.unmarked.Typed ↔ o.Typed := by
  simp only [Typed, unmarked, List.forall_mem_map]
  rfl

theorem names_unmarked (o : Object) (name : String) (e : Entity) :
    o.unmarked.Names name e ↔ o.Names name e := by
  cases e with
  | object index => rfl
  | sub index subindex =>
      simp only [Names, unmarked, List.mem_map, exists_exists_and_eq_and]
      rfl
  | literal value => rfl

theorem Names.annotated {o : Object} {name : String} {e : Entity} (names : o.Names name e)
    (properties : ValueMap) : { o with properties }.Names name e := by
  cases e with
  | object index => exact names
  | sub index subindex => exact names
  | literal value => exact names

theorem single_typed (index : UInt16) (symbol description : String) (access : Access)
    {t : BasicType} (listed : t ∈ BasicType.catalog) (default : Value) (properties : ValueMap) :
    { single index symbol description access t default with properties }.Typed := by
  intro sub member
  rw [List.mem_singleton.mp member]
  exact listed

theorem array_typed {index : UInt16} {symbol description : String} {access : Access} {t : BasicType}
    {size : Option Nat} {values : List Value} {o : Object} (listed : t ∈ BasicType.catalog)
    (made : Object.array index symbol description access t size values = .ok o) : o.Typed := by
  obtain ⟨filled, -, -, -, subs⟩ := array_subs made
  unfold Typed
  rw [subs]
  refine List.forall_mem_cons.mpr ⟨List.mem_cons_self, ?_⟩
  intro sub member
  obtain ⟨i, _, rfl⟩ := List.mem_mapIdx.mp member
  exact listed

theorem record_typed {index : UInt16} {symbol description : String} {fields : List FieldSpec}
    {o : Object} (listed : ∀ field ∈ fields, field.basicType ∈ BasicType.catalog)
    (made : record index symbol description fields = .ok o) : o.Typed := by
  obtain ⟨-, -, -, subs, all, spec⟩ := record_subs made
  unfold Typed
  rw [all]
  refine List.forall_mem_cons.mpr ⟨List.mem_cons_self, ?_⟩
  intro sub member
  have same := List.mem_map_of_mem (f := fun sub => (sub.basicType, sub.default)) member
  rw [spec.content] at same
  obtain ⟨field, present, same⟩ := List.mem_map.mp same
  obtain ⟨sameType, -⟩ := Prod.mk.inj same
  rw [← sameType]
  exact listed field present

end Object

/-! ## Symbol tables -/

namespace SymbolTable

/-- Every entry was there before or is one of the new ones. -/
def Grows (new : String → Entity → Prop) (before after : SymbolTable) : Prop :=
  ∀ name e, after[name]? = some e → before[name]? = some e ∨ new name e

variable {new other : String → Entity → Prop} {before middle after : SymbolTable}

theorem Grows.refl (new : String → Entity → Prop) (before : SymbolTable) :
    Grows new before before :=
  fun _ _ => Or.inl

theorem Grows.trans (first : Grows new before middle) (second : Grows new middle after) :
    Grows new before after := by
  intro name e found
  rcases second name e found with earlier | fresh
  · exact first name e earlier
  · exact Or.inr fresh

theorem Grows.weaken (grows : Grows new before after) (all : ∀ name e, new name e → other name e) :
    Grows other before after := by
  intro name e found
  exact (grows name e found).imp_right (all name e)

theorem Grows.insert {name : String} {e : Entity} (fresh : new name e) (before : SymbolTable) :
    Grows new before (before.insert name e) := by
  intro key value found
  rw [Std.ExtTreeMap.getElem?_insert] at found
  split at found
  · next same =>
      cases Option.some.inj found
      rw [Std.LawfulEqCmp.compare_eq_iff_eq] at same
      exact Or.inr (same ▸ fresh)
  · exact Or.inl found

end SymbolTable

/-! ## Statements -/

namespace Resolution

open SymbolTable (Grows)

/-- An object is declared between two states of a resolution. -/
structure Declares (object : Object) (r next : Resolution) : Prop where
  built : object.Built
  typed : object.Typed
  fresh : object.index ∉ r.dictionary.objects.map Object.index
  objects : next.dictionary.unmarked.objects = r.dictionary.unmarked.objects ++ [object.unmarked]
  symbols : Grows (fun name e => e.IsLiteral ∨ object.Names name e) r.symbols next.symbols

/-- All that can happen in a program, marks aside. -/
inductive Act (r next : Resolution) : Prop where
  | note : next.dictionary = r.dictionary →
      Grows (fun _ e => e.IsLiteral) r.symbols next.symbols → Act r next
  | declare (object : Object) : Declares object r next → Act r next

theorem annotate_grows {symbol : String} {properties : List Property} {r next : Resolution}
    {before after : ValueMap} (made : annotate symbol properties r before = .ok (next, after)) :
    Grows (fun _ e => e.IsLiteral) r.symbols next.symbols := by
  induction properties generalizing r before with
  | nil =>
      cases made
      exact Grows.refl _ _
  | cons property rest ih =>
      rw [annotate] at made
      obtain ⟨value, _, made⟩ := Except.bind_eq_ok made
      have literal : (Entity.literal value).IsLiteral := trivial
      exact (Grows.insert literal r.symbols).trans (ih made)

theorem insert_declares {r next : Resolution} {object : Object}
    (made : r.insert object = .ok next) :
    next.symbols = r.symbols ∧ next.dictionary.objects = r.dictionary.objects ++ [object] ∧
      object.index ∉ r.dictionary.objects.map Object.index := by
  obtain ⟨_, _, made⟩ := Except.bind_eq_ok made
  obtain ⟨dictionary, inserted, made⟩ := Except.bind_eq_ok made
  cases made
  exact ⟨rfl, Dictionary.insert_ok inserted⟩

theorem declareVariable_declares {r next : Resolution} {s : VariableDecl}
    (made : r.declareVariable s = .ok next) : ∃ object, Declares object r next := by
  unfold declareVariable at made
  obtain ⟨t, listed, made⟩ := Except.bind_eq_ok made
  obtain ⟨index, _, made⟩ := Except.bind_eq_ok made
  obtain ⟨default, _, made⟩ := Except.bind_eq_ok made
  obtain ⟨⟨annotated, properties⟩, notes, made⟩ := Except.bind_eq_ok made
  obtain ⟨added, inserted, made⟩ := Except.bind_eq_ok made
  cases made
  obtain ⟨symbols, objects, fresh⟩ := insert_declares inserted
  rw [annotate_dictionary notes] at objects fresh
  refine ⟨_, .single _ _ _ _ _ _ properties,
    Object.single_typed _ _ _ _ (BasicType.mem_of_find listed) _ _, fresh, ?_, ?_⟩
  · simp only [publish, Dictionary.unmarked, objects, List.map_append, List.map_singleton]
  · refine ((annotate_grows notes).weaken fun _ _ => Or.inl).trans ?_
    dsimp only [publish]
    rw [symbols]
    exact Grows.insert (.inr ⟨rfl, rfl⟩) _

/-- Marks change neither the names nor, marks aside, the objects. -/
theorem tags_kept (symbol : String) (direction : Direction) (entries : List Int64)
    (r : Resolution) :
    (entries.foldl (tag symbol direction) r).symbols = r.symbols ∧
      (entries.foldl (tag symbol direction) r).dictionary.unmarked = r.dictionary.unmarked := by
  induction entries generalizing r with
  | nil => exact ⟨rfl, rfl⟩
  | cons entry rest ih =>
      have one : (tag symbol direction r entry).symbols = r.symbols ∧
          (tag symbol direction r entry).dictionary.unmarked = r.dictionary.unmarked := by
        unfold tag
        split
        · split
          · exact ⟨rfl, r.dictionary.unmarked_grant _ _⟩
          · split <;> exact ⟨rfl, rfl⟩
        · exact ⟨rfl, rfl⟩
      exact ⟨(ih _).1.trans one.1, (ih _).2.trans one.2⟩

theorem declareArray_declares {r next : Resolution} {s : ArrayDecl}
    (made : r.declareArray s = .ok next) : ∃ object, Declares object r next := by
  obtain ⟨t, index, size, values, warnings, object, annotated, properties, added, listed, -, -,
    array, notes, inserted, after⟩ := declareArray_ok made
  obtain ⟨symbols, objects, fresh⟩ := insert_declares inserted
  rw [annotate_dictionary notes] at objects fresh
  obtain ⟨_, _, whole⟩ := Object.array_ok array
  have published : next.symbols = (added.publish s.symbol (.object index)).symbols ∧
      next.dictionary.unmarked = added.dictionary.unmarked := by
    rw [after]
    split
    · exact tags_kept _ _ _ (added.publish s.symbol (.object index))
    · exact ⟨rfl, rfl⟩
  have typed := Object.array_typed (BasicType.mem_of_find listed) array
  refine ⟨{ object with properties }, .array properties array, typed, fresh, ?_, ?_⟩
  · rw [published.2, Dictionary.unmarked, objects, List.map_append]
    rfl
  · refine ((annotate_grows notes).weaken fun _ _ => Or.inl).trans ?_
    rw [published.1, publish, symbols]
    exact Grows.insert (.inr ⟨congrArg Object.index whole, congrArg Object.symbol whole⟩) _

/-! ## Records -/

/-- A record under construction gives all the names that were declared along with it. -/
structure Pending.Named (r : Resolution) (p : Pending) : Prop where
  typed : ∀ field ∈ p.fields, field.basicType ∈ BasicType.catalog
  symbols : Grows p.object.Names r.symbols p.resolution.symbols

/-- A field keeps the names of the fields before it. -/
theorem names_snoc {index : UInt16} {symbol description : String} {fields : List FieldSpec}
    {field : FieldSpec} {o next : Object}
    (made : Object.record index symbol description fields = .ok o)
    (more : Object.record index symbol description (fields ++ [field]) = .ok next) {name : String}
    {e : Entity} (names : o.Names name e) : next.Names name e := by
  obtain ⟨subs, subindex, all, allMore, -⟩ := Object.record_snoc made more
  obtain ⟨-, _, -, rfl⟩ := Object.record_ok made
  obtain ⟨-, _, -, rfl⟩ := Object.record_ok more
  cases e with
  | object index => exact names
  | sub index subindex =>
      obtain ⟨own, kind, positive, sub, member, place, same⟩ := names
      refine ⟨own, rfl, positive, sub, ?_, place, same⟩
      rw [all] at member
      rw [allMore]
      rcases List.mem_cons.mp member with rfl | field
      -- The count is the only part that changes, and no name stands for it.
      · cases place
        cases positive
      · exact List.mem_cons_of_mem _ (List.mem_append_left _ field)
  | literal value => exact names

theorem names_last {index : UInt16} {symbol description : String} {fields : List FieldSpec}
    {field : FieldSpec} {o next : Object}
    (made : Object.record index symbol description fields = .ok o)
    (more : Object.record index symbol description (fields ++ [field]) = .ok next) :
    next.Names (symbol ++ "." ++ field.symbol) (.sub index next.maxSubindex) := by
  obtain ⟨subs, subindex, -, all, positive⟩ := Object.record_snoc made more
  rw [Object.maxSubindex_snoc (Object.record_wellFormed more) all]
  obtain ⟨-, _, -, rfl⟩ := Object.record_ok more
  refine ⟨rfl, rfl, positive, Object.fieldSub index field subindex, ?_, rfl, rfl⟩
  rw [all]
  exact List.mem_append_right _ List.mem_cons_self

theorem addField_named {access : Access} {symbol description : String} {index : UInt16}
    {d : Dictionary} {r : Resolution} {p next : Pending} {field : FieldDecl}
    (kept : p.Kept index symbol description d) (named : p.Named r)
    (made : addField access symbol description index p field = .ok next) : next.Named r := by
  unfold addField at made
  obtain ⟨subindex, _, made⟩ := Except.bind_eq_ok made
  obtain ⟨default, _, made⟩ := Except.bind_eq_ok made
  obtain ⟨t, listed, made⟩ := Except.bind_eq_ok made
  obtain ⟨object, record, made⟩ := Except.bind_eq_ok made
  cases made
  refine ⟨?_, ?_⟩
  · exact List.forall_mem_append.mpr
      ⟨named.typed, List.forall_mem_singleton.mpr (BasicType.mem_of_find listed)⟩
  · have earlier := named.symbols.weaken fun name e => names_snoc kept.object record
    exact earlier.trans (Grows.insert (names_last kept.object record) _)

theorem recordObject_declares {s : RecordDecl} {symbol description : String} {index : UInt16}
    {r next : Resolution} (made : recordObject s symbol description index r = .ok next) :
    ∃ object, Declares object r next := by
  unfold recordObject at made
  obtain ⟨object, record, made⟩ := Except.bind_eq_ok made
  obtain ⟨done, fields, made⟩ := Except.bind_eq_ok made
  obtain ⟨⟨annotated, properties⟩, notes, inserted⟩ := Except.bind_eq_ok made
  have start : object.Names symbol (.object index) := by
    obtain ⟨-, _, -, rfl⟩ := Object.record_ok record
    exact ⟨rfl, rfl⟩
  -- The names are published before the object is there, so they are measured against the record as
  -- far as it is built; `Kept` says that this record is the one that is inserted in the end.
  have both : done.Kept index symbol description r.dictionary ∧ done.Named r := by
    refine foldlM_keeps (P := fun p => p.Kept index symbol description r.dictionary ∧ p.Named r)
      ?_ ⟨⟨rfl, record⟩, List.forall_mem_nil _, Grows.insert start _⟩ fields
    intro p field next _ both added
    exact ⟨addField_kept both.1 added, addField_named both.1 both.2 added⟩
  obtain ⟨kept, named⟩ := both
  obtain ⟨symbols, objects, fresh⟩ := insert_declares inserted
  rw [annotate_dictionary notes, kept.dictionary] at objects fresh
  have typed := Object.record_typed named.typed kept.object
  refine ⟨_, .record properties kept.object, typed, fresh, ?_, ?_⟩
  · rw [Dictionary.unmarked, objects, List.map_append]
    rfl
  · rw [symbols]
    refine (named.symbols.weaken fun _ _ names => Or.inr (names.annotated properties)).trans ?_
    exact (annotate_grows notes).weaken fun _ _ => Or.inl

theorem recordInstances_acts {s : RecordDecl} {position : Nat} {instances : List Instance}
    {r next : Resolution} (made : recordInstances s position instances r = .ok next) :
    Relation.ReflTransGen Act r next := by
  induction instances generalizing position r with
  | nil =>
      cases made
      exact .refl
  | cons i rest ih =>
      rw [recordInstances] at made
      obtain ⟨index, _, made⟩ := Except.bind_eq_ok made
      obtain ⟨one, first, made⟩ := Except.bind_eq_ok made
      obtain ⟨object, declares⟩ := recordObject_declares first
      exact (ih made).head (.declare object declares)

/-! ## Programs -/

theorem step_acts {r next : Resolution} {s : Statement} (made : r.step s = .ok next) :
    Relation.ReflTransGen Act r next := by
  cases s with
  | make directive =>
      cases made
      exact .single (.note rfl (Grows.refl _ _))
  | assign s =>
      obtain ⟨value, _, made⟩ := Except.bind_eq_ok made
      cases made
      have literal : (Entity.literal value).IsLiteral := trivial
      exact .single (.note rfl (Grows.insert literal r.symbols))
  | «variable» s =>
      obtain ⟨object, declares⟩ := declareVariable_declares made
      exact .single (.declare object declares)
  | array s =>
      obtain ⟨object, declares⟩ := declareArray_declares made
      exact .single (.declare object declares)
  | record s =>
      dsimp only [step, declareRecord] at made
      split at made
      · obtain ⟨index, _, made⟩ := Except.bind_eq_ok made
        obtain ⟨object, declares⟩ := recordObject_declares made
        exact .single (.declare object declares)
      · refine Relation.ReflTransGen.head ?_ (recordInstances_acts made)
        exact .note rfl (Grows.refl _ _)

/-- Statements do nothing but note values and declare objects. -/
theorem steps_acts {statements : List Statement} {r next : Resolution}
    (made : statements.foldlM step r = .ok next) : Relation.ReflTransGen Act r next := by
  refine foldlM_keeps (P := Relation.ReflTransGen Act r) ?_ .refl made
  intro state s next _ acts stepped
  exact acts.trans (step_acts stepped)

/-- What every act keeps holds behind every program. -/
theorem steps_keep {engine : Regex.Engine} {P : Resolution → Prop} (start : P { engine })
    (keep : ∀ r next, Act r next → P r → P next) {statements : List Statement} {r : Resolution}
    (made : statements.foldlM step { engine } = .ok r) : P r := by
  have acts := steps_acts made
  clear made
  induction acts with
  | refl => exact start
  | tail _ act ih => exact keep _ _ act ih

theorem Act.typed {r next : Resolution} (act : Act r next)
    (typed : ∀ o ∈ r.dictionary.objects, o.Typed) : ∀ o ∈ next.dictionary.objects, o.Typed := by
  cases act with
  | note same _ => rwa [same]
  | declare object declares =>
      have aside := Dictionary.forall_unmarked Object.typed_unmarked
      rw [← aside, declares.objects]
      exact List.forall_mem_append.mpr ⟨(aside _).mpr typed,
        List.forall_mem_singleton.mpr (object.typed_unmarked.mpr declares.typed)⟩

theorem steps_typed {engine : Regex.Engine} {statements : List Statement} {r : Resolution}
    (made : statements.foldlM step { engine } = .ok r) : ∀ o ∈ r.dictionary.objects, o.Typed :=
  steps_keep (P := fun r => ∀ o ∈ r.dictionary.objects, o.Typed) (List.forall_mem_nil _)
    (fun _ _ => Act.typed) made

end Resolution

end EcatDevice
