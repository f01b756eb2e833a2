import EcatDevice.Dictionary.Mapping
import EcatDevice.Proofs.DefaultEncoding
import Mathlib.Tactic

/-! # The shape of objects

Every object that is built has its index in all its sub-objects, ascending subindices, and a count
in front that tells how many sub-objects follow; a variable has no count. Permissions play no part
in this: `unmarked` forgets them, and what is said of the shape holds of an object and of the same
object without its marks. Annotations play no part in it, either.
-/

namespace EcatDevice

/-- A computation that gives a result has given one at its first step. -/
theorem Except.bind_eq_ok {ε α β : Type} {first : Except ε α} {next : α → Except ε β} {b : β}
    (made : first >>= next = .ok b) : ∃ a, first = .ok a ∧ next a = .ok b := by
  cases first with
  | error e => cases made
  | ok a => exact ⟨a, rfl, made⟩

/-- The sub-object without its permissions. -/
def SubObject.unmarked (sub : SubObject) : SubObject :=
  { sub with access := Access.empty }

def SubObject.Encodes (sub : SubObject) : Prop :=
  ∃ bytes, sub.encodedDefault = .ok bytes

namespace Object

def unmarked (o : Object) : Object :=
  { o with subs := o.subs.map SubObject.unmarked }

/-- The first sub-object counts the others. -/
def Counted : List SubObject → Prop
  | [] => False
  | first :: rest =>
    first.subindex = 0 ∧ first.basicType = BasicType.subindex0 ∧
      first.default = .int (Int64.ofNat rest.length) ∧ rest.length ≤ 255

/-- What the kind of an object says about its sub-objects. -/
def Shape (subs : List SubObject) : ObjectKind → Prop
  | .variable => subs.map SubObject.subindex = [0]
  | .array => Counted subs ∧ subs.map (·.subindex.toNat) = List.range subs.length
  | .record => Counted subs

/-- An object as the dictionary may hold it. -/
structure WellFormed (o : Object) : Prop where
  home : ∀ sub ∈ o.subs, sub.index = o.index
  ascending : o.subs.Pairwise fun left right => left.subindex < right.subindex
  shape : Shape o.subs o.kind

/-- All default values have an encoding. -/
def Encodes (o : Object) : Prop :=
  ∀ sub ∈ o.subs, sub.Encodes

/-- An object that was built as a variable, an array or a record, with any annotations. -/
inductive Built : Object → Prop where
  | single (index : UInt16) (symbol description : String) (access : Access) (t : BasicType)
      (default : Value) (properties : ValueMap) :
      Built { single index symbol description access t default with properties }
  | array {index : UInt16} {symbol description : String} {access : Access} {t : BasicType}
      {size : Option Nat} {values : List Value} {o : Object} (properties : ValueMap) :
      Object.array index symbol description access t size values = .ok o →
      Built { o with properties }
  | record {index : UInt16} {symbol description : String} {fields : List FieldSpec} {o : Object}
      (properties : ValueMap) :
      Object.record index symbol description fields = .ok o → Built { o with properties }

/-! ## Marks -/

theorem unmarked_grant (o : Object) (subindex : UInt8) (access : Access) :
    (o.grant subindex access).unmarked = o.unmarked := by
  have same : ∀ sub : SubObject,
      (if sub.subindex = subindex then sub.grant access else sub).unmarked = sub.unmarked := by
    intro sub
    split <;> rfl
  simp only [unmarked, grant, List.map_map, Function.comp_def, same]

theorem counted_unmarked (subs : List SubObject) :
    Counted (subs.map SubObject.unmarked) ↔ Counted subs := by
  cases subs with
  | nil => rfl
  | cons first rest =>
      simp only [List.map_cons, Counted, List.length_map]
      rfl

theorem shape_unmarked (subs : List SubObject) (kind : ObjectKind) :
    Shape (subs.map SubObject.unmarked) kind ↔ Shape subs kind := by
  match kind with
  | .variable | .array =>
      simp only [Shape, counted_unmarked, List.map_map, List.length_map]
      rfl
  | .record => exact counted_unmarked subs

theorem wellFormed_unmarked (o : Object) : o.unmarked.WellFormed ↔ o.WellFormed := by
  have home : (∀ sub ∈ o.unmarked.subs, sub.index = o.index) ↔
      ∀ sub ∈ o.subs, sub.index = o.index := List.forall_mem_map
  have ascending : (o.unmarked.subs.Pairwise fun left right => left.subindex < right.subindex) ↔
      o.subs.Pairwise fun left right => left.subindex < right.subindex := List.pairwise_map
  have shape := shape_unmarked o.subs o.kind
  constructor
  · intro formed
    exact ⟨home.mp formed.home, ascending.mp formed.ascending, shape.mp formed.shape⟩
  · intro formed
    exact ⟨home.mpr formed.home, ascending.mpr formed.ascending, shape.mpr formed.shape⟩

theorem encodes_unmarked (o : Object) : o.unmarked.Encodes ↔ o.Encodes := by
  simp only [Encodes, unmarked, List.forall_mem_map]
  rfl

/-! ## Construction -/

theorem WellFormed.annotated {o : Object} (formed : o.WellFormed) (properties : ValueMap) :
    { o with properties }.WellFormed :=
  ⟨formed.home, formed.ascending, formed.shape⟩

theorem single_wellFormed (index : UInt16) (symbol description : String) (access : Access)
    (t : BasicType) (default : Value) :
    (single index symbol description access t default).WellFormed where
  home := by
    intro sub member
    rw [List.mem_singleton.mp member]
    rfl
  ascending := List.pairwise_singleton _ _
  shape := rfl

/-- An array holds its values and zeros behind them. -/
theorem array_ok {index : UInt16} {symbol description : String} {access : Access} {t : BasicType}
    {size : Option Nat} {values : List Value} {o : Object}
    (made : Object.array index symbol description access t size values = .ok o) :
    ∃ zeros : Nat, values.length + zeros ≤ 255 ∧
      o = { kind := .array, index, symbol, description,
            subs := countSub index (values.length + zeros) ::
              (values ++ List.replicate zeros Value.zero).mapIdx (element index access t) } := by
  dsimp only [Object.array] at made
  split at made
  · cases made
  · next enough =>
      split at made
      · cases made
      · next few =>
          have count : values.length + (size.getD values.length - values.length) =
              size.getD values.length := by omega
          refine ⟨size.getD values.length - values.length, by omega, ?_⟩
          cases made
          rw [count]

theorem array_subs {index : UInt16} {symbol description : String} {access : Access} {t : BasicType}
    {size : Option Nat} {values : List Value} {o : Object}
    (made : Object.array index symbol description access t size values = .ok o) :
    ∃ filled : List Value, filled.length ≤ 255 ∧ o.kind = .array ∧ o.index = index ∧
      o.subs = countSub index filled.length :: filled.mapIdx (element index access t) := by
  obtain ⟨zeros, few, rfl⟩ := array_ok made
  refine ⟨values ++ List.replicate zeros Value.zero, ?_, rfl, rfl, ?_⟩
  · rwa [List.length_append, List.length_replicate]
  · rw [List.length_append, List.length_replicate]

theorem array_wellFormed {index : UInt16} {symbol description : String} {access : Access}
    {t : BasicType} {size : Option Nat} {values : List Value} {o : Object}
    (made : Object.array index symbol description access t size values = .ok o) : o.WellFormed := by
  obtain ⟨filled, few, kind, rfl, subs⟩ := array_subs made
  have numbered : o.subs.map (·.subindex.toNat) = List.range o.subs.length := by
    rw [subs]
    apply List.ext_getElem
    · simp only [List.length_map, List.length_range]
    · intro i inside _
      simp only [List.length_map, List.length_cons, List.length_mapIdx] at inside
      cases i with
      | zero => simp [countSub]
      | succ i =>
          have small : (i + 1) % 256 = i + 1 := Nat.mod_eq_of_lt (by omega)
          simp [element, small]
  refine ⟨?_, ?_, ?_⟩
  · rw [subs]
    intro sub member
    rcases List.mem_cons.mp member with rfl | later
    · rfl
    · obtain ⟨i, _, rfl⟩ := List.mem_mapIdx.mp later
      rfl
  · have ascending : (o.subs.map (·.subindex.toNat)).Pairwise (· < ·) := by
      rw [numbered]
      exact List.pairwise_lt_range
    exact (List.pairwise_map.mp ascending).imp UInt8.lt_iff_toNat_lt.mpr
  · rw [kind]
    refine ⟨?_, numbered⟩
    have length := List.length_mapIdx (f := element o.index access t) (l := filled)
    rw [subs]
    exact ⟨rfl, rfl, by rw [length]; rfl, by rwa [length]⟩

theorem lt_fieldSubindex {symbol : String} {previous subindex : UInt8} {field : FieldSpec}
    (made : fieldSubindex symbol previous field = .ok subindex) : previous < subindex := by
  unfold fieldSubindex at made
  split at made
  · split at made
    · next above =>
        cases made
        exact above
    · cases made
  · split at made
    · next below =>
        cases made
        have bound := UInt8.lt_iff_toNat_lt.mp below
        rw [UInt8.lt_iff_toNat_lt]
        simp at bound ⊢
        omega
    · cases made

structure FieldSubs (index : UInt16) (previous : UInt8) (fields : List FieldSpec)
    (subs : List SubObject) : Prop where
  home : ∀ sub ∈ subs, sub.index = index
  above : ∀ sub ∈ subs, previous < sub.subindex
  ascending : subs.Pairwise fun left right => left.subindex < right.subindex
  content : subs.map (fun sub => (sub.basicType, sub.default)) =
    fields.map fun field => (field.basicType, field.default)

theorem fieldSubs_spec {index : UInt16} {symbol : String} {previous : UInt8}
    {fields : List FieldSpec} {subs : List SubObject}
    (made : fieldSubs index symbol previous fields = .ok subs) :
    FieldSubs index previous fields subs := by
  induction fields generalizing previous subs with
  | nil =>
      cases made
      exact ⟨by simp, by simp, .nil, rfl⟩
  | cons field rest ih =>
      rw [fieldSubs] at made
      obtain ⟨subindex, first, made⟩ := Except.bind_eq_ok made
      obtain ⟨others, later, made⟩ := Except.bind_eq_ok made
      have spec := ih later
      have here := lt_fieldSubindex first
      cases made
      refine ⟨?_, ?_, ?_, ?_⟩
      · exact List.forall_mem_cons.mpr ⟨rfl, spec.home⟩
      · refine List.forall_mem_cons.mpr ⟨here, ?_⟩
        intro sub member
        exact UInt8.lt_trans here (spec.above sub member)
      · exact List.pairwise_cons.mpr ⟨spec.above, spec.ascending⟩
      · simp only [List.map_cons, spec.content]

theorem record_ok {index : UInt16} {symbol description : String} {fields : List FieldSpec}
    {o : Object} (made : record index symbol description fields = .ok o) :
    fields.length ≤ 255 ∧ ∃ subs, fieldSubs index symbol 0 fields = .ok subs ∧
      o = { kind := .record, index, symbol, description,
            subs := countSub index fields.length :: subs } := by
  unfold record at made
  split at made
  · cases made
  · next few =>
      obtain ⟨subs, each, made⟩ := Except.bind_eq_ok made
      cases made
      exact ⟨by omega, subs, each, rfl⟩

theorem record_subs {index : UInt16} {symbol description : String} {fields : List FieldSpec}
    {o : Object} (made : Object.record index symbol description fields = .ok o) :
    fields.length ≤ 255 ∧ o.kind = .record ∧ o.index = index ∧
      ∃ subs, o.subs = countSub index fields.length :: subs ∧ FieldSubs index 0 fields subs := by
  obtain ⟨few, subs, each, rfl⟩ := record_ok made
  exact ⟨few, rfl, rfl, subs, rfl, fieldSubs_spec each⟩

theorem record_wellFormed {index : UInt16} {symbol description : String} {fields : List FieldSpec}
    {o : Object} (made : Object.record index symbol description fields = .ok o) :
    o.WellFormed := by
  obtain ⟨few, kind, rfl, subs, all, spec⟩ := record_subs made
  have length : subs.length = fields.length := by
    simpa only [List.length_map] using congrArg List.length spec.content
  refine ⟨?_, ?_, ?_⟩
  · rw [all]
    exact List.forall_mem_cons.mpr ⟨rfl, spec.home⟩
  · rw [all]
    exact List.pairwise_cons.mpr ⟨spec.above, spec.ascending⟩
  · rw [kind, all]
    exact ⟨rfl, rfl, by rw [length]; rfl, by rwa [length]⟩

theorem Built.wellFormed {o : Object} (built : o.Built) : o.WellFormed := by
  cases built with
  | single => exact (single_wellFormed _ _ _ _ _ _).annotated _
  | array properties made => exact (array_wellFormed made).annotated properties
  | record properties made => exact (record_wellFormed made).annotated properties

/-! ## Default values -/

theorem unsigned_encodes {sub : SubObject} {width : Nat} {n : Int64}
    (encoding : sub.basicType.encoding = .unsigned width) (default : sub.default = .int n)
    (lower : 0 ≤ n.toInt) (upper : n.toInt < 256 ^ width) : sub.Encodes := by
  refine (sub.basicType.encode_takes sub.symbol sub.default).mpr ?_
  rw [encoding, default]
  exact ⟨lower, upper⟩

theorem countSub_encodes (index : UInt16) {count : Nat} (few : count ≤ 255) :
    (countSub index count).Encodes := by
  have value : (Int64.ofNat count).toInt = count := Int64.toInt_ofNat_of_lt (by omega)
  refine unsigned_encodes rfl rfl ?_ ?_
  · omega
  · rw [value]
    exact_mod_cast Nat.lt_succ_of_le few

/-- The default values of a record are those of its fields, behind a count that fits its type. -/
theorem record_encodes {index : UInt16} {symbol description : String} {fields : List FieldSpec}
    {o : Object} (made : Object.record index symbol description fields = .ok o)
    (each : ∀ field ∈ fields, ∀ sub : SubObject, sub.basicType = field.basicType →
      sub.default = field.default → sub.Encodes) : o.Encodes := by
  obtain ⟨few, -, -, subs, all, spec⟩ := record_subs made
  unfold Encodes
  rw [all]
  refine List.forall_mem_cons.mpr ⟨countSub_encodes index few, ?_⟩
  intro sub member
  have listed := List.mem_map_of_mem (f := fun sub => (sub.basicType, sub.default)) member
  rw [spec.content] at listed
  obtain ⟨field, present, same⟩ := List.mem_map.mp listed
  obtain ⟨sameType, sameDefault⟩ := Prod.mk.inj same
  exact each field present sub sameType.symm sameDefault.symm

end Object

end EcatDevice
