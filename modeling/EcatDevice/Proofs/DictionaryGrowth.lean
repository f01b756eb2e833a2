import EcatDevice.Proofs.RecordFields

/-! # Growth of the dictionary

Along every row of changes objects and sub-objects keep their positions and all that they hold, and
permissions are only added. What was found at an index or by a reference is found there ever after.
-/

namespace EcatDevice

namespace Access

theorem contains_iff (a b : Access) : a.contains b = true ↔ a.bits &&& b.bits = b.bits :=
  beq_iff_eq

theorem contains_self (a : Access) : a.contains a = true := by
  rw [contains_iff, UInt16.and_self]

theorem contains_trans {a b c : Access} (first : a.contains b = true)
    (second : b.contains c = true) : a.contains c = true := by
  rw [contains_iff] at first second ⊢
  rw [← second, ← UInt16.and_assoc, first]

theorem or_contains_left (a b : Access) : (a ||| b).contains a = true := by
  rw [contains_iff]
  change (a.bits ||| b.bits) &&& a.bits = a.bits
  apply UInt16.toBitVec_inj.mp
  ext i inside
  simp only [UInt16.toBitVec_and, UInt16.toBitVec_or, BitVec.getElem_and, BitVec.getElem_or]
  cases a.bits.toBitVec[i] <;> simp

theorem or_contains_right (a b : Access) : (a ||| b).contains b = true := by
  have other := or_contains_left b a
  rw [contains_iff] at other ⊢
  change (a.bits ||| b.bits) &&& b.bits = b.bits
  rw [UInt16.or_comm]
  exact other

end Access

/-! ## Extension -/

/-- The same sub-object, perhaps with more permissions. -/
structure SubObject.Extends (sub later : SubObject) : Prop where
  same : later.unmarked = sub.unmarked
  access : later.access.contains sub.access = true

/-- The same object, perhaps with more permissions in its sub-objects. -/
structure Object.Extends (o later : Object) : Prop where
  same : later.unmarked = o.unmarked
  subs : ∀ (i : Nat) (sub : SubObject), o.subs[i]? = some sub →
    ∃ next, later.subs[i]? = some next ∧ sub.Extends next

/-- All objects are still there. -/
def Dictionary.Extends (d later : Dictionary) : Prop :=
  ∀ (i : Nat) (o : Object), d.objects[i]? = some o →
    ∃ next, later.objects[i]? = some next ∧ o.Extends next

theorem SubObject.Extends.refl (sub : SubObject) : sub.Extends sub :=
  ⟨rfl, sub.access.contains_self⟩

theorem SubObject.Extends.trans {sub middle later : SubObject} (first : sub.Extends middle)
    (second : middle.Extends later) : sub.Extends later :=
  ⟨second.same.trans first.same, Access.contains_trans second.access first.access⟩

theorem SubObject.Extends.reference {sub later : SubObject} (kept : sub.Extends later) :
    later.reference = sub.reference := by
  have same := congrArg SubObject.reference kept.same
  exact same

theorem SubObject.Extends.basicType {sub later : SubObject} (kept : sub.Extends later) :
    later.basicType = sub.basicType := by
  have same := congrArg SubObject.basicType kept.same
  exact same

theorem SubObject.extends_grant (sub : SubObject) (access : Access) :
    sub.Extends (sub.grant access) :=
  ⟨rfl, Access.or_contains_left sub.access access⟩

namespace Object

theorem Extends.refl (o : Object) : o.Extends o :=
  ⟨rfl, fun _ sub found => ⟨sub, found, .refl sub⟩⟩

theorem Extends.trans {o middle later : Object} (first : o.Extends middle)
    (second : middle.Extends later) : o.Extends later := by
  refine ⟨second.same.trans first.same, ?_⟩
  intro i sub found
  obtain ⟨next, foundNext, one⟩ := first.subs i sub found
  obtain ⟨last, foundLast, two⟩ := second.subs i next foundNext
  exact ⟨last, foundLast, one.trans two⟩

theorem extends_grant (o : Object) (subindex : UInt8) (access : Access) :
    o.Extends (o.grant subindex access) := by
  refine ⟨o.unmarked_grant subindex access, ?_⟩
  intro i sub found
  refine ⟨_, by rw [grant, List.getElem?_map, found]; rfl, ?_⟩
  dsimp only
  split
  · exact sub.extends_grant access
  · exact .refl sub

theorem Extends.index {o later : Object} (kept : o.Extends later) : later.index = o.index := by
  have same := congrArg Object.index kept.same
  exact same

theorem payload_unmarked (o : Object) : o.unmarked.payload = o.payload.map SubObject.unmarked := by
  unfold payload unmarked
  dsimp only
  split <;> simp only [List.map_drop]

theorem defaults_unmarked (o : Object) :
    o.unmarked.payload.map SubObject.default = o.payload.map SubObject.default := by
  rw [payload_unmarked, List.map_map]
  rfl

theorem Extends.defaults {o later : Object} (kept : o.Extends later) :
    later.payload.map SubObject.default = o.payload.map SubObject.default := by
  rw [← defaults_unmarked later, kept.same, defaults_unmarked]

theorem Extends.sub? {o later : Object} (grown : o.Extends later) (formed : later.WellFormed)
    {subindex : UInt8} {sub : SubObject} (found : o.sub? subindex = some sub) :
    ∃ next, later.sub? subindex = some next ∧ sub.Extends next := by
  obtain ⟨member, place⟩ := mem_of_sub? found
  obtain ⟨i, position⟩ := List.mem_iff_getElem?.mp member
  obtain ⟨next, positionNext, kept⟩ := grown.subs i sub position
  refine ⟨next, ?_, kept⟩
  have same : next.subindex = subindex := (congrArg SubObject.subindex kept.same).trans place
  rw [← same]
  exact formed.sub?_of_mem (List.mem_of_getElem? positionNext)

end Object

namespace Dictionary

theorem Extends.refl (d : Dictionary) : d.Extends d :=
  fun _ o found => ⟨o, found, .refl o⟩

theorem Extends.trans {d middle later : Dictionary} (first : d.Extends middle)
    (second : middle.Extends later) : d.Extends later := by
  intro i o found
  obtain ⟨next, foundNext, one⟩ := first i o found
  obtain ⟨last, foundLast, two⟩ := second i next foundNext
  exact ⟨last, foundLast, one.trans two⟩

theorem extends_grant (d : Dictionary) (reference : UInt32) (access : Access) :
    d.Extends (d.grant reference access) := by
  intro i o found
  refine ⟨_, by rw [grant, List.getElem?_map, found]; rfl, ?_⟩
  dsimp only
  split
  · exact o.extends_grant _ access
  · exact .refl o

theorem extends_insert {d next : Dictionary} {object : Object}
    (made : d.insert object = .ok next) : d.Extends next := by
  intro i o found
  obtain ⟨inside, _⟩ := List.getElem?_eq_some_iff.mp found
  refine ⟨o, ?_, .refl o⟩
  rw [(insert_ok made).1, List.getElem?_append_left inside]
  exact found

theorem Changes.grown {accept : Object → Prop} {d next : Dictionary}
    (changes : Changes accept d next) : d.Extends next := by
  induction changes with
  | refl => exact .refl d
  | tail _ change ih =>
      refine ih.trans ?_
      cases change with
      | insert _ made => exact extends_insert made
      | grant reference access => exact extends_grant _ reference access

/-! ## Lookups -/

section
variable {d later : Dictionary} (grown : d.Extends later) (formed : later.WellFormed)
include grown formed

theorem Extends.get? {index : UInt16} {o : Object} (found : d.get? index = some o) :
    ∃ next, later.get? index = some next ∧ o.Extends next := by
  obtain ⟨member, place⟩ := mem_of_get? found
  obtain ⟨i, position⟩ := List.mem_iff_getElem?.mp member
  obtain ⟨next, positionNext, kept⟩ := grown i o position
  refine ⟨next, ?_, kept⟩
  have same : next.index = index := (congrArg Object.index kept.same).trans place
  rw [← same]
  exact get?_of_mem formed.distinct (List.mem_of_getElem? positionNext)

theorem Extends.find? {reference : UInt32} {sub : SubObject}
    (found : d.find? reference = some sub) :
    ∃ next, later.find? reference = some next ∧ sub.Extends next := by
  obtain ⟨o, object, part⟩ := Option.bind_eq_some_iff.mp found
  obtain ⟨next, objectNext, kept⟩ := grown.get? formed object
  obtain ⟨sub', part', keptSub⟩ := kept.sub? (formed.objects next (mem_of_get? objectNext).1) part
  exact ⟨sub', Option.bind_eq_some_iff.mpr ⟨next, objectNext, part'⟩, keptSub⟩

end

end Dictionary

end EcatDevice
