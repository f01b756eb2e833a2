import EcatDevice.Proofs.DictionaryGrowth
import EcatDevice.Proofs.Insertions
import EcatDevice.Proofs.SymbolTable
import Mathlib

/-! # Marks of process data

The permissions of a sub-object come from two sources: its declaration, and the mapping arrays that
refer to it. `Dictionary.declare` is the whole effect of a declared object on the dictionary. It
stands behind the others, and if it is an array at an index of mapping objects then it marks every
sub-object that one of its entries names, itself included. A program declares the objects that it
inserts one after the other, so each mask is the declared one with the marks of all arrays that are
not declared before it.
-/

namespace EcatDevice

namespace Access

@[simp] theorem or_empty (a : Access) : a ||| empty = a :=
  congrArg Access.mk UInt16.or_zero

@[simp] theorem empty_or (a : Access) : empty ||| a = a :=
  congrArg Access.mk UInt16.zero_or

@[simp] theorem or_self (a : Access) : a ||| a = a :=
  congrArg Access.mk UInt16.or_self

theorem or_assoc (a b c : Access) : a ||| b ||| c = a ||| (b ||| c) :=
  congrArg Access.mk (UInt16.or_assoc _ _ _)

end Access

/-- Place of the mark in a mask. -/
def Direction.bit : Direction → Nat
  | .receive => 6
  | .transmit => 7

theorem Access.contains_flag (a : Access) (direction : Direction) :
    a.contains direction.flag = a.bits.toBitVec.getLsbD direction.bit := by
  have single : direction.flag.bits.toBitVec = BitVec.twoPow 16 direction.bit := by
    cases direction <;> rfl
  have some : 0#16 ≠ BitVec.twoPow 16 direction.bit := by
    cases direction <;> decide
  rw [Bool.eq_iff_iff, contains_iff, ← UInt16.toBitVec_inj, UInt16.toBitVec_and, single,
    BitVec.and_twoPow]
  cases a.bits.toBitVec.getLsbD direction.bit <;> simp [some]

theorem Access.or_contains_flag (a b : Access) (direction : Direction) :
    (a ||| b).contains direction.flag =
      (a.contains direction.flag || b.contains direction.flag) := by
  rw [contains_flag, contains_flag, contains_flag]
  exact BitVec.getLsbD_or

theorem Access.empty_contains_flag (direction : Direction) :
    empty.contains direction.flag = false := by
  cases direction <;> decide

theorem forall₂_at {α β : Type} {R : α → β → Prop} {left : List α} {right : List β}
    (related : List.Forall₂ R left right) {i : Nat} {a : α} (found : left[i]? = some a) :
    ∃ b, right[i]? = some b ∧ R a b := by
  induction related generalizing i with
  | nil => cases found
  | @cons a b _ _ here _ ih =>
      cases i with
      | zero =>
          cases found
          exact ⟨b, rfl, here⟩
      | succ i => exact ih found

/-! ## Permissions by place -/

/-- Permissions for sub-objects, by index and subindex. -/
abbrev Grants := UInt16 → UInt8 → Access

namespace Object

def grantEach (o : Object) (added : Grants) : Object :=
  { o with subs := o.subs.map fun sub => sub.grant (added o.index sub.subindex) }

theorem grantEach_empty (o : Object) : o.grantEach (fun _ _ => Access.empty) = o := by
  simp [grantEach, SubObject.grant]

theorem grantEach_grantEach (o : Object) (first second : Grants) :
    (o.grantEach first).grantEach second =
      o.grantEach fun index subindex => first index subindex ||| second index subindex := by
  simp [grantEach, SubObject.grant, Access.or_assoc]

theorem grantEach_getElem? {o : Object} {added : Grants} {j : Nat} {sub : SubObject} :
    (o.grantEach added).subs[j]? = some sub ↔
      ∃ origin, o.subs[j]? = some origin ∧ origin.grant (added o.index origin.subindex) = sub := by
  rw [grantEach, List.getElem?_map, Option.map_eq_some_iff]

theorem grantEach_defaults (o : Object) (added : Grants) :
    (o.grantEach added).payload.map SubObject.default = o.payload.map SubObject.default := by
  unfold payload grantEach
  dsimp only
  split <;> simp only [← List.map_drop, List.map_map] <;> rfl

end Object

/-- Whether a reference names the sub-object at a place, whatever width it states. -/
def MapRef.names (index : UInt16) (subindex : UInt8) (reference : UInt32) : Bool :=
  (unpack reference).index == index && (unpack reference).subindex == subindex

namespace Dictionary

/-- Permissions for every place that one of the references names. -/
def grantsOf (references : List UInt32) (access : Access) : Grants := fun index subindex =>
  if references.any (MapRef.names index subindex) then access else Access.empty

theorem grantsOf_nil (access : Access) : grantsOf [] access = fun _ _ => Access.empty := rfl

theorem grantsOf_cons (reference : UInt32) (rest : List UInt32) (access : Access) :
    grantsOf (reference :: rest) access = fun index subindex =>
      grantsOf [reference] access index subindex ||| grantsOf rest access index subindex := by
  funext index subindex
  simp only [grantsOf, List.any_cons, List.any_nil, Bool.or_false, Bool.or_eq_true]
  by_cases first : MapRef.names index subindex reference = true <;>
    by_cases later : rest.any (MapRef.names index subindex) = true <;>
    simp only [first, later, or_true, true_or, or_self, if_true, if_false, Access.or_self,
      Access.or_empty, Access.empty_or, Bool.false_eq_true]

theorem grant_eq (d : Dictionary) (reference : UInt32) (access : Access) :
    d.grant reference access =
      { objects := d.objects.map (·.grantEach (grantsOf [reference] access)) } := by
  refine congrArg Dictionary.mk (List.map_congr_left fun o _ => ?_)
  by_cases own : o.index = (MapRef.unpack reference).index
  · have each : ∀ sub ∈ o.subs, (if sub.subindex = (MapRef.unpack reference).subindex then
        sub.grant access else sub) =
        sub.grant (grantsOf [reference] access o.index sub.subindex) := by
      intro sub _
      by_cases here : sub.subindex = (MapRef.unpack reference).subindex
      · simp [here, own, grantsOf, MapRef.names]
      · simp [here, Ne.symm here, grantsOf, MapRef.names, SubObject.grant]
    rw [if_pos own, Object.grant, Object.grantEach, List.map_congr_left each]
  · have none : ∀ subindex, grantsOf [reference] access o.index subindex = Access.empty := by
      simp [grantsOf, MapRef.names, Ne.symm own]
    simp [own, Object.grantEach, none, SubObject.grant]

theorem foldl_grant_eq (d : Dictionary) (references : List UInt32) (access : Access) :
    references.foldl (fun d reference => d.grant reference access) d =
      { objects := d.objects.map (·.grantEach (grantsOf references access)) } := by
  induction references generalizing d with
  | nil => simp only [List.foldl_nil, grantsOf_nil, Object.grantEach_empty, List.map_id']
  | cons reference rest ih =>
      rw [List.foldl_cons, ih, grant_eq]
      simp only [List.map_map, Function.comp_def, Object.grantEach_grantEach,
        grantsOf_cons reference rest]

theorem grant_absent {d : Dictionary} (formed : d.WellFormed) {reference : UInt32}
    (absent : d.find? reference = none) (access : Access) : d.grant reference access = d := by
  have same : ∀ o ∈ d.objects, (if o.index = (MapRef.unpack reference).index then
      o.grant (MapRef.unpack reference).subindex access else o) = o := by
    intro o member
    split
    · next own =>
        have found := get?_of_mem formed.distinct member
        simp only [find?, ← own, found, Option.bind_eq_bind, Option.bind_some] at absent
        have parts := List.find?_eq_none.mp absent
        have kept : ∀ sub ∈ o.subs, (if sub.subindex = (MapRef.unpack reference).subindex then
            sub.grant access else sub) = sub := by
          intro sub part
          exact if_neg (by simpa using parts sub part)
        rw [Object.grant, List.map_congr_left kept, List.map_id']
    · rfl
  rw [grant, List.map_congr_left same, List.map_id']

end Dictionary

/-! ## Mapping arrays -/

namespace Object

/-- The references among the default values of the data. -/
def references (o : Object) : List UInt32 :=
  (o.payload.filterMap (·.default.int?)).filterMap MapRef.ofInt?

/-- What the declaration of an object adds to permissions. -/
def marks (o : Object) : Grants := fun index subindex =>
  match o.kind, o.direction? with
  | .array, some direction => Dictionary.grantsOf o.references direction.flag index subindex
  | _, _ => Access.empty

theorem marks_of_kind {o : Object} (kind : o.kind ≠ .array) :
    o.marks = fun _ _ => Access.empty := by
  funext index subindex
  unfold marks
  split
  · next array _ => exact absurd array kind
  · rfl

theorem marks_of_plain {o : Object} (plain : o.direction? = none) :
    o.marks = fun _ _ => Access.empty := by
  funext index subindex
  unfold marks
  rw [plain]
  cases o.kind <;> rfl

theorem marks_of_mapping {o : Object} (kind : o.kind = .array) {direction : Direction}
    (mapping : o.direction? = some direction) :
    o.marks = Dictionary.grantsOf o.references direction.flag := by
  funext index subindex
  unfold marks
  rw [kind, mapping]

theorem marks_contains {o : Object} {index : UInt16} {subindex : UInt8} {direction : Direction} :
    (o.marks index subindex).contains direction.flag = true ↔
      o.kind = .array ∧ o.direction? = some direction ∧
        ∃ reference ∈ o.references, MapRef.names index subindex reference = true := by
  have apart : ∀ a b : Direction, a.flag.contains b.flag = true ↔ a = b := by
    intro a b
    cases a <;> cases b <;> decide
  unfold marks
  split
  · next own kind mapping =>
      simp only [kind, mapping, true_and, Option.some.injEq, ← List.any_eq_true,
        Dictionary.grantsOf]
      split
      · next named => simp only [apart, named, and_true]
      · next unnamed => simp [Access.empty_contains_flag, unnamed]
  · next other =>
      rw [Access.empty_contains_flag]
      refine iff_of_false Bool.false_ne_true ?_
      rintro ⟨kind, mapping, -⟩
      exact other direction kind mapping

/-- What an object marks does not depend on permissions. -/
theorem marks_grantEach (o : Object) (added : Grants) : (o.grantEach added).marks = o.marks := by
  have same : (o.grantEach added).references = o.references := by
    have values := congrArg (List.filterMap Value.int?) (o.grantEach_defaults added)
    simp only [List.filterMap_map] at values
    exact congrArg (List.filterMap MapRef.ofInt?) values
  unfold marks
  rw [same]
  rfl

end Object

namespace Dictionary

/-- The dictionary with one more object and the marks that it makes. -/
def declare (d : Dictionary) (object : Object) : Dictionary :=
  { objects := (d.objects ++ [object]).map (·.grantEach object.marks) }

theorem declare_of_kind {object : Object} (kind : object.kind ≠ .array) (d : Dictionary) :
    d.declare object = { objects := d.objects ++ [object] } := by
  simp [declare, Object.marks_of_kind kind, Object.grantEach_empty]

end Dictionary

/-! ## Declared permissions -/

/-- The permissions of the fields of a record, behind those of the count. -/
def RecordDecl.accessAt (s : RecordDecl) : Nat → Access
  | 0 => Access.read
  | j + 1 => (s.fields[j]?.map fun field => field.access ||| s.access).getD Access.empty

/-- The permissions that a statement declares: for each of its objects those of the sub-object at a
position. -/
def Statement.accesses : Statement → List (Nat → Access)
  | .make _ => []
  | .assign _ => []
  | .variable s => [fun _ => s.access]
  | .array s => [fun j => if j = 0 then Access.read else s.access]
  | .record s => List.replicate (max 1 s.instances.length) s.accessAt

/-- The permissions that a program declares, object by object. -/
def declaredAccesses (statements : List Statement) : List (Nat → Access) :=
  statements.flatMap Statement.accesses

def Object.Holds (o : Object) (access : Nat → Access) : Prop :=
  ∀ (j : Nat) (sub : SubObject), o.subs[j]? = some sub → sub.access = access j

namespace Object

theorem array_holds {index : UInt16} {symbol description : String} {access : Access} {t : BasicType}
    {size : Option Nat} {values : List Value} {o : Object}
    (made : Object.array index symbol description access t size values = .ok o) :
    o.Holds fun j => if j = 0 then Access.read else access := by
  obtain ⟨filled, -, -, -, subs⟩ := array_subs made
  intro j sub found
  rw [subs] at found
  cases j with
  | zero =>
      cases found
      rfl
  | succ j =>
      rw [List.getElem?_cons_succ, List.getElem?_mapIdx, Option.map_eq_some_iff] at found
      obtain ⟨value, -, rfl⟩ := found
      rfl

theorem fieldSubs_access {index : UInt16} {symbol : String} {previous : UInt8}
    {fields : List FieldSpec} {subs : List SubObject}
    (made : fieldSubs index symbol previous fields = .ok subs) :
    subs.map SubObject.access = fields.map FieldSpec.access := by
  induction fields generalizing previous subs with
  | nil =>
      cases made
      rfl
  | cons field rest ih =>
      obtain ⟨subindex, others, -, later, rfl⟩ := fieldSubs_cons.mp made
      rw [List.map_cons, List.map_cons, ih later]
      rfl

theorem record_holds {index : UInt16} {symbol description : String} {fields : List FieldSpec}
    {s : RecordDecl} {o : Object} (made : record index symbol description fields = .ok o)
    (same : fields.map FieldSpec.access = s.fields.map fun field => field.access ||| s.access) :
    o.Holds s.accessAt := by
  obtain ⟨-, subs, each, rfl⟩ := record_ok made
  intro j sub found
  cases j with
  | zero =>
      cases found
      rfl
  | succ j =>
      have access : (subs.map SubObject.access)[j]? = some sub.access := by
        rw [List.getElem?_map, ← List.getElem?_cons_succ, found]
        rfl
      rw [fieldSubs_access each, same, List.getElem?_map] at access
      rw [RecordDecl.accessAt, access]
      rfl

end Object

/-! ## Programs -/

namespace Dictionary

/-- Objects with the permissions of a list are declared one after the other. -/
inductive Enters (d : Dictionary) : List (Nat → Access) → Dictionary → Prop where
  | none : Enters d [] d
  | more {declared : List (Nat → Access)} {access : Nat → Access} {next : Dictionary}
      {object : Object} : Enters d declared next → object.Holds access →
      Enters d (declared ++ [access]) (next.declare object)

theorem Enters.one {d : Dictionary} {access : Nat → Access} {object : Object}
    (holds : object.Holds access) : Enters d [access] (d.declare object) :=
  .more .none holds

theorem Enters.append {d middle next : Dictionary} {first second : List (Nat → Access)}
    (before : Enters d first middle) (behind : Enters middle second next) :
    Enters d (first ++ second) next := by
  induction behind with
  | none => rwa [List.append_nil]
  | more _ holds ih =>
      rw [← List.append_assoc]
      exact .more ih holds

theorem Enters.of_holds {objects : List Object} {declared : List (Nat → Access)}
    (holds : List.Forall₂ Object.Holds objects declared) {d : Dictionary} :
    Enters d declared (objects.foldl Dictionary.declare d) := by
  induction holds generalizing d with
  | nil => exact .none
  | cons here _ ih => exact (Enters.one here).append ih

/-- The marks that a row of objects makes. -/
def marksOf (objects : List Object) : Grants := fun index subindex =>
  objects.foldr (fun o marked => o.marks index subindex ||| marked) Access.empty

theorem marksOf_congr {left right : List Object}
    (same : left.map Object.marks = right.map Object.marks) : marksOf left = marksOf right := by
  have each : ∀ objects : List Object, marksOf objects = fun index subindex =>
      (objects.map Object.marks).foldr (fun marks marked => marks index subindex ||| marked)
        Access.empty := by
    intro objects
    funext index subindex
    rw [List.foldr_map]
    rfl
  rw [each, each, same]

theorem marksOf_contains {objects : List Object} {index : UInt16} {subindex : UInt8}
    {direction : Direction} :
    (marksOf objects index subindex).contains direction.flag = true ↔
      ∃ o ∈ objects, (o.marks index subindex).contains direction.flag = true := by
  induction objects with
  | nil => simp [marksOf, Access.empty_contains_flag]
  | cons o rest ih =>
      simp only [marksOf, List.foldr_cons, Access.or_contains_flag, Bool.or_eq_true,
        List.exists_mem_cons_iff] at ih ⊢
      rw [ih]

/-- Objects with the marks that each gets from its own declaration on. -/
def marked : List Object → List Object
  | [] => []
  | o :: rest => o.grantEach (marksOf (o :: rest)) :: marked rest

/-- A row of declarations marks what is there already and, from each declaration on, the new
objects. -/
theorem foldl_declare_objects (d : Dictionary) (objects : List Object) :
    (objects.foldl declare d).objects =
      d.objects.map (·.grantEach (marksOf objects)) ++ marked objects := by
  induction objects generalizing d with
  | nil =>
      have none : marksOf [] = fun _ _ => Access.empty := rfl
      simp [none, marked, Object.grantEach_empty]
  | cons o rest ih =>
      rw [List.foldl_cons, ih, declare]
      simp only [List.map_append, List.map_map, Function.comp_def, Object.grantEach_grantEach,
        List.map_cons, List.map_nil, List.append_assoc, List.singleton_append]
      rfl

theorem length_marked (objects : List Object) : (marked objects).length = objects.length := by
  induction objects with
  | nil => rfl
  | cons o rest ih => simp only [marked, List.length_cons, ih]

theorem getElem?_marked (objects : List Object) (p : Nat) :
    (marked objects)[p]? = objects[p]?.map fun o => o.grantEach (marksOf (objects.drop p)) := by
  induction objects generalizing p with
  | nil => rfl
  | cons o rest ih =>
      cases p with
      | zero => rfl
      | succ p => simp [marked, ih]

/-- What the objects behind a place mark does not depend on their own marks. -/
theorem marksOf_drop_marked (objects : List Object) (p : Nat) :
    marksOf ((marked objects).drop p) = marksOf (objects.drop p) := by
  have same : (marked objects).map Object.marks = objects.map Object.marks := by
    induction objects with
    | nil => rfl
    | cons o rest ih => simp only [marked, List.map_cons, Object.marks_grantEach, ih]
  apply marksOf_congr
  rw [List.map_drop, same, List.map_drop]

/-- Objects are inserted into a dictionary one after the other, and each makes its marks before the
next is inserted. -/
def Inserted : Dictionary → List Object → Prop
  | _, [] => True
  | d, o :: rest =>
    (∃ before after : Resolution, before.dictionary = d ∧ before.insert o = .ok after) ∧
      Inserted (d.declare o) rest

theorem Inserted.append {d : Dictionary} {first second : List Object} (before : Inserted d first)
    (behind : Inserted (first.foldl declare d) second) : Inserted d (first ++ second) := by
  induction first generalizing d with
  | nil => exact behind
  | cons o rest ih => exact ⟨before.1, ih before.2 behind⟩

theorem Inserted.at {d : Dictionary} {objects : List Object} (inserted : Inserted d objects)
    {p : Nat} {o : Object} (found : objects[p]? = some o) :
    ∃ before after : Resolution, before.dictionary.objects.length = d.objects.length + p ∧
      before.insert o = .ok after := by
  induction objects generalizing d p with
  | nil => cases found
  | cons first rest ih =>
      obtain ⟨⟨before, after, same, made⟩, later⟩ := inserted
      cases p with
      | zero =>
          cases found
          exact ⟨before, after, by rw [same]; rfl, made⟩
      | succ p =>
          obtain ⟨before, after, length, made⟩ := ih later found
          refine ⟨before, after, ?_, made⟩
          rw [length, declare, List.length_map, List.length_append, List.length_singleton]
          omega

/-- Every mask is the declared one with the marks of all objects from its own on. -/
structure Marked (declared : List (Nat → Access)) (d : Dictionary) : Prop where
  length : d.objects.length = declared.length
  access : ∀ (p : Nat) (o : Object), d.objects[p]? = some o →
    ∃ access, declared[p]? = some access ∧ ∀ (j : Nat) (sub : SubObject), o.subs[j]? = some sub →
      sub.access = access j ||| marksOf (d.objects.drop p) o.index sub.subindex

end Dictionary

namespace Resolution

open Dictionary (Enters Inserted grantsOf)

theorem tags_dictionary (symbol : String) (direction : Direction) (entries : List Int64)
    {r : Resolution} (formed : r.dictionary.WellFormed) :
    (entries.foldl (tag symbol direction) r).dictionary =
      { objects := r.dictionary.objects.map
          (·.grantEach (grantsOf (entries.filterMap MapRef.ofInt?) direction.flag)) } := by
  rw [← Dictionary.foldl_grant_eq]
  induction entries generalizing r with
  | nil => rfl
  | cons entry rest ih =>
      have formedNext : (tag symbol direction r entry).dictionary.WellFormed :=
        (tag_changes symbol direction [entry] r).accepted_wellFormed formed
      rw [List.foldl_cons, ih formedNext, List.filterMap_cons]
      cases named : MapRef.ofInt? entry with
      | none =>
          rw [tag, named]
          rfl
      | some reference =>
          have one : (tag symbol direction r entry).dictionary =
              r.dictionary.grant reference direction.flag := by
            rw [tag, named]
            dsimp only
            split
            · rfl
            · next absent =>
                -- An entry that names nothing only warns, and a grant to nothing changes nothing.
                rw [Dictionary.grant_absent formed (Option.not_isSome_iff_eq_none.mp absent)]
                split <;> rfl
          rw [one]
          rfl

theorem insert_declare {r next : Resolution} {object : Object} (kind : object.kind ≠ .array)
    (made : r.insert object = .ok next) : next.dictionary = r.dictionary.declare object := by
  rw [Dictionary.declare_of_kind kind]
  exact congrArg Dictionary.mk (insert_declares made).2.1

theorem variableOf_holds {r : Resolution} {s : VariableDecl} {object : Object}
    (made : r.variableOf s = .ok object) :
    object.kind = .variable ∧ object.Holds fun _ => s.access := by
  obtain ⟨t, -, made⟩ := Except.bind_eq_ok made
  obtain ⟨index, -, made⟩ := Except.bind_eq_ok made
  obtain ⟨default, -, made⟩ := Except.bind_eq_ok made
  obtain ⟨⟨_, properties⟩, -, made⟩ := Except.bind_eq_ok made
  cases made
  refine ⟨rfl, ?_⟩
  intro j sub found
  rw [List.mem_singleton.mp (List.mem_of_getElem? found)]

theorem arrayOf_holds {r : Resolution} {s : ArrayDecl} {object : Object}
    (made : r.arrayOf s = .ok object) :
    object.kind = .array ∧ object.Built ∧
      object.Holds fun j => if j = 0 then Access.read else s.access := by
  obtain ⟨t, -, made⟩ := Except.bind_eq_ok made
  obtain ⟨index, -, made⟩ := Except.bind_eq_ok made
  obtain ⟨size, -, made⟩ := Except.bind_eq_ok made
  obtain ⟨⟨values, warnings⟩, -, made⟩ := Except.bind_eq_ok made
  obtain ⟨array, constructed, made⟩ := Except.bind_eq_ok made
  obtain ⟨⟨_, properties⟩, -, made⟩ := Except.bind_eq_ok made
  cases made
  obtain ⟨-, -, kind, -, -⟩ := Object.array_subs constructed
  have holds := Object.array_holds constructed
  exact ⟨kind, .array properties constructed, holds⟩

theorem addFields_access {access : Access} {symbol description : String} {index : UInt16}
    {fields : List FieldDecl} {p next : Pending}
    (made : fields.foldlM (addField access symbol description index) p = .ok next) :
    next.fields.map FieldSpec.access =
      p.fields.map FieldSpec.access ++ fields.map fun field => field.access ||| access := by
  induction fields generalizing p with
  | nil =>
      cases made
      exact (List.append_nil _).symm
  | cons field rest ih =>
      rw [List.foldlM_cons] at made
      obtain ⟨one, first, made⟩ := Except.bind_eq_ok made
      obtain ⟨_, _, _, _, -, -, -, -, added, -, -⟩ := addField_ok first
      rw [ih made, added]
      simp

theorem recordOf_holds {s : RecordDecl} {symbol description : String} {index : UInt16}
    {r : Resolution} {object : Object} (made : recordOf s symbol description index r = .ok object) :
    object.kind = .record ∧ object.Holds s.accessAt := by
  obtain ⟨start, record, made⟩ := Except.bind_eq_ok made
  obtain ⟨done, fields, made⟩ := Except.bind_eq_ok made
  obtain ⟨⟨_, properties⟩, -, made⟩ := Except.bind_eq_ok made
  cases made
  have kept : done.Kept index symbol description r.dictionary := addFields_kept ⟨rfl, record⟩ fields
  obtain ⟨-, kind, -⟩ := Object.record_subs kept.object
  have holds := Object.record_holds kept.object (addFields_access fields)
  exact ⟨kind, holds⟩

theorem declareVariable_declare {r next : Resolution} {s : VariableDecl}
    (made : r.declareVariable s = .ok next) :
    ∃ object, r.variableOf s = .ok object ∧ Inserted r.dictionary [object] ∧
      next.dictionary = r.dictionary.declare object := by
  obtain ⟨object, annotated, added, constructed, same, inserted, rfl⟩ := declareVariable_insert made
  have other : object.kind ≠ .array := by simp [(variableOf_holds constructed).1]
  have declared := insert_declare other inserted
  rw [same] at declared
  exact ⟨object, constructed, ⟨⟨annotated, added, same, inserted⟩, trivial⟩, declared⟩

/-- An array is inserted with its own permissions, and then marks what it refers to. -/
theorem declareArray_declare {r next : Resolution} {s : ArrayDecl}
    (formed : r.dictionary.WellFormed) (made : r.declareArray s = .ok next) :
    ∃ object, r.arrayOf s = .ok object ∧ Inserted r.dictionary [object] ∧
      next.dictionary = r.dictionary.declare object := by
  obtain ⟨object, annotated, added, constructed, same, inserted, after⟩ := declareArray_insert made
  obtain ⟨kind, built, -⟩ := arrayOf_holds constructed
  have change := insert_change built inserted
  obtain ⟨-, objects, -⟩ := insert_declares inserted
  rw [same] at change objects
  have formedAdded : added.dictionary.WellFormed :=
    Dictionary.Changes.accepted_wellFormed (.single change) formed
  have published : (added.publish s.symbol (.object object.index)).dictionary.objects =
      r.dictionary.objects ++ [object] := objects
  refine ⟨object, constructed, ⟨⟨annotated, added, same, inserted⟩, trivial⟩, ?_⟩
  rw [after]
  split
  · next direction mapping =>
      have tags := tags_dictionary (r := added.publish s.symbol (.object object.index)) s.symbol
        direction (object.payload.filterMap (·.default.int?)) formedAdded
      rw [tags, Dictionary.declare, published, Object.marks_of_mapping kind mapping]
      rfl
  · next plain =>
      rw [Dictionary.declare, Object.marks_of_plain plain]
      simp only [Object.grantEach_empty, List.map_id']
      exact congrArg Dictionary.mk objects

theorem recordObject_declare {s : RecordDecl} {symbol description : String} {index : UInt16}
    {r next : Resolution} (made : recordObject s symbol description index r = .ok next) :
    ∃ object, recordOf s symbol description index r = .ok object ∧
      Inserted r.dictionary [object] ∧ next.dictionary = r.dictionary.declare object := by
  obtain ⟨object, annotated, constructed, same, inserted⟩ := recordObject_insert made
  have other : object.kind ≠ .array := by simp [(recordOf_holds constructed).1]
  have declared := insert_declare other inserted
  rw [same] at declared
  exact ⟨object, constructed, ⟨⟨annotated, next, same, inserted⟩, trivial⟩, declared⟩

theorem recordInstances_declare {s : RecordDecl} {position : Nat} {instances : List Instance}
    {r next : Resolution} (made : recordInstances s position instances r = .ok next) :
    ∃ objects, instancesOf s position instances r = .ok objects ∧
      List.Forall₂ Object.Holds objects (List.replicate instances.length s.accessAt) ∧
      Inserted r.dictionary objects ∧
      next.dictionary = objects.foldl Dictionary.declare r.dictionary := by
  induction instances generalizing position r with
  | nil =>
      cases made
      exact ⟨[], rfl, .nil, trivial, rfl⟩
  | cons i rest ih =>
      rw [recordInstances] at made
      obtain ⟨index, indexed, made⟩ := Except.bind_eq_ok made
      obtain ⟨one, first, made⟩ := Except.bind_eq_ok made
      obtain ⟨object, constructed, inserted, declared⟩ := recordObject_declare first
      obtain ⟨objects, later, holds, others, behind⟩ := ih made
      rw [declared] at others
      refine ⟨object :: objects, ?_, .cons (recordOf_holds constructed).2 holds,
        inserted.append others, ?_⟩
      · simp only [instancesOf, indexed, constructed, first, later, bind, Except.bind]
        rfl
      · rw [behind, declared, List.foldl_cons]

/-- A statement declares the objects that it inserts, and that is all it does to the dictionary. -/
theorem step_declare {r next : Resolution} {s : Statement} (formed : r.dictionary.WellFormed)
    (made : r.step s = .ok next) :
    ∃ objects, r.objectsOf s = .ok objects ∧ List.Forall₂ Object.Holds objects s.accesses ∧
      Inserted r.dictionary objects ∧
      next.dictionary = objects.foldl Dictionary.declare r.dictionary := by
  cases s with
  | make directive =>
      cases made
      exact ⟨[], rfl, .nil, trivial, rfl⟩
  | assign s =>
      obtain ⟨value, _, made⟩ := Except.bind_eq_ok made
      cases made
      exact ⟨[], rfl, .nil, trivial, rfl⟩
  | «variable» s =>
      obtain ⟨object, constructed, declared⟩ := declareVariable_declare made
      refine ⟨[object], ?_, .cons (variableOf_holds constructed).2 .nil, declared⟩
      rw [objectsOf, constructed]
      rfl
  | array s =>
      obtain ⟨object, constructed, declared⟩ := declareArray_declare formed made
      refine ⟨[object], ?_, .cons (arrayOf_holds constructed).2.2 .nil, declared⟩
      rw [objectsOf, constructed]
      rfl
  | record s =>
      dsimp only [step, declareRecord] at made
      rw [objectsOf, Statement.accesses]
      split at made
      · next alone =>
          obtain ⟨index, indexed, made⟩ := Except.bind_eq_ok made
          obtain ⟨object, constructed, declared⟩ := recordObject_declare made
          rw [if_pos alone, List.isEmpty_iff.mp alone]
          refine ⟨[object], ?_, .cons (recordOf_holds constructed).2 .nil, declared⟩
          simp only [indexed, constructed, bind, Except.bind]
          rfl
      · next several =>
          have count : max 1 s.instances.length = s.instances.length :=
            Nat.max_eq_right (List.length_pos_iff.mpr (by simpa using several))
          rw [if_neg several, count]
          exact recordInstances_declare made

/-- A program declares the objects that it inserts, one after the other. -/
theorem steps_declare {statements : List Statement} {r next : Resolution}
    (formed : r.dictionary.WellFormed) (made : statements.foldlM step r = .ok next) :
    ∃ objects, insertions r statements = .ok objects ∧
      List.Forall₂ Object.Holds objects (declaredAccesses statements) ∧
      Inserted r.dictionary objects ∧
      next.dictionary = objects.foldl Dictionary.declare r.dictionary := by
  induction statements generalizing r with
  | nil =>
      cases made
      exact ⟨[], rfl, .nil, trivial, rfl⟩
  | cons s rest ih =>
      rw [List.foldlM_cons] at made
      obtain ⟨one, first, made⟩ := Except.bind_eq_ok made
      obtain ⟨objects, constructed, holds, inserted, declared⟩ := step_declare formed first
      obtain ⟨others, later, holdsLater, insertedLater, behind⟩ :=
        ih ((step_changes first).accepted_wellFormed formed) made
      rw [declared] at insertedLater
      refine ⟨objects ++ others, ?_, List.rel_append holds holdsLater,
        inserted.append insertedLater, ?_⟩
      · simp only [insertions, constructed, first, later, bind, Except.bind]
        rfl
      · rw [behind, declared, List.foldl_append]

theorem steps_enters {statements : List Statement} {r next : Resolution}
    (formed : r.dictionary.WellFormed) (made : statements.foldlM step r = .ok next) :
    Enters r.dictionary (declaredAccesses statements) next.dictionary := by
  obtain ⟨objects, -, holds, -, declared⟩ := steps_declare formed made
  rw [declared]
  exact .of_holds holds

theorem steps_insertions {engine : Regex.Engine} {statements : List Statement} {r : Resolution}
    (made : statements.foldlM step { engine } = .ok r) :
    ∃ objects, insertions { engine } statements = .ok objects ∧
      List.Forall₂ Object.Holds objects (declaredAccesses statements) ∧
      Inserted Dictionary.empty objects ∧ r.dictionary.objects = Dictionary.marked objects := by
  have formed : Dictionary.empty.WellFormed := ⟨List.nodup_nil, List.forall_mem_nil _⟩
  obtain ⟨objects, computed, holds, inserted, declared⟩ :=
    steps_declare (r := { engine }) formed made
  refine ⟨objects, computed, holds, inserted, ?_⟩
  rw [declared, Dictionary.foldl_declare_objects]
  rfl

theorem steps_marked {engine : Regex.Engine} {statements : List Statement} {r : Resolution}
    (made : statements.foldlM step { engine } = .ok r) :
    Dictionary.Marked (declaredAccesses statements) r.dictionary := by
  obtain ⟨objects, -, holds, -, whole⟩ := steps_insertions made
  refine ⟨?_, ?_⟩
  · rw [whole, Dictionary.length_marked, holds.length_eq]
  · intro p o found
    rw [whole, Dictionary.getElem?_marked, Option.map_eq_some_iff] at found
    obtain ⟨origin, place, rfl⟩ := found
    obtain ⟨access, listed, same⟩ := forall₂_at holds place
    refine ⟨access, listed, ?_⟩
    intro j sub part
    obtain ⟨first, found, rfl⟩ := Object.grantEach_getElem?.mp part
    rw [whole, Dictionary.marksOf_drop_marked, ← same j first found]
    rfl

end Resolution

end EcatDevice
