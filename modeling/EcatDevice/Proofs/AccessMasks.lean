import EcatDevice.Proofs.Marks
import Mathlib

/-! # Permissions in a compiled dictionary

An object keeps everything that it is inserted with, apart from two bits of its masks. These come
from the mapping arrays, its own object among them, that stand at or behind its place: each one adds
the mark of its direction to the sub-objects that one of its values refers to.
-/

namespace EcatDevice

/-- Whether a value refers to the sub-object at a place: a number of 32 bits with the index in its
upper half and the subindex below it. -/
def Value.refersTo (index : UInt16) (subindex : UInt8) : Value → Bool
  | .int r => 0 ≤ r.toInt && r.toInt < 2 ^ 32 && r.toInt.toNat >>> 16 == index.toNat &&
      (r.toInt.toNat >>> 8) &&& 0xff == subindex.toNat
  | _ => false

/-- The mark that an array at an index gives to what it refers to. -/
def mappingFlag? (index : UInt16) : Option Access :=
  if index.toNat >>> 8 = 0x16 then some Access.rxPdo
  else if index.toNat >>> 8 = 0x1a then some Access.txPdo
  else none

/-- The mark that an object gives to the sub-object at a place. -/
def Object.flagFor? (map : Object) (index : UInt16) (subindex : UInt8) : Option Access :=
  if map.kind = .array && map.payload.any (·.default.refersTo index subindex) then
    mappingFlag? map.index
  else none

/-- The marks that a row of objects gives to the sub-object at a place. -/
def flagsFor (objects : List Object) (index : UInt16) (subindex : UInt8) : List Access :=
  objects.filterMap (·.flagFor? index subindex)

/-- The object with the marks that a row of objects gives to its sub-objects. -/
def Object.withFlags (o : Object) (objects : List Object) : Object :=
  { o with subs := o.subs.map fun sub =>
      { sub with access := (flagsFor objects o.index sub.subindex).foldl (· ||| ·) sub.access } }

/-! ## References as numbers -/

theorem MapRef.names_iff (index : UInt16) (subindex : UInt8) (reference : UInt32) :
    names index subindex reference = true ↔
      reference.toNat >>> 16 = index.toNat ∧ (reference.toNat >>> 8) &&& 0xff = subindex.toNat := by
  have upper : reference.toNat >>> 16 < 65536 := by
    rw [Nat.shiftRight_eq_div_pow]
    have := reference.toNat_lt
    omega
  have mask : (0xff : Nat) = 2 ^ 8 - 1 := rfl
  simp only [names, unpack, Bool.and_eq_true, beq_iff_eq, ← UInt16.toNat_inj, ← UInt8.toNat_inj]
  rw [mask, Nat.and_two_pow_sub_one_eq_mod]
  simp [Nat.mod_eq_of_lt upper]

theorem Value.refersTo_eq (index : UInt16) (subindex : UInt8) (value : Value) :
    value.refersTo index subindex =
      (value.int?.bind MapRef.ofInt?).any (MapRef.names index subindex) := by
  cases value with
  | int r =>
      simp only [refersTo, int?, Option.bind_some, MapRef.ofInt?]
      generalize r.toInt = n
      split
      · next inside =>
          have small : n.toNat < 4294967296 := by omega
          rw [Bool.eq_iff_iff]
          simp [inside, MapRef.names_iff, Nat.mod_eq_of_lt small]
      · next outside => simp_all
  | _ => rfl

theorem Object.any_references (o : Object) (index : UInt16) (subindex : UInt8) :
    o.references.any (MapRef.names index subindex) =
      o.payload.any (·.default.refersTo index subindex) := by
  rw [references, List.filterMap_filterMap, List.any_filterMap]
  congr 1
  funext sub
  rw [Value.refersTo_eq]
  cases sub.default.int?.bind MapRef.ofInt? <;> rfl

/-! ## Marks as flags -/

theorem mappingFlag?_eq (index : UInt16) :
    mappingFlag? index = (Direction.ofMapIndex? index).map Direction.flag := by
  have high : ∀ n : UInt16, index >>> 8 = n ↔ index.toNat >>> 8 = n.toNat := by
    intro n
    rw [← UInt16.toNat_inj, UInt16.toNat_shiftRight]
    rfl
  have receive : UInt16.toNat 0x16 = 0x16 := rfl
  have transmit : UInt16.toNat 0x1a = 0x1a := rfl
  simp only [mappingFlag?, Direction.ofMapIndex?, high, receive, transmit]
  split
  · rfl
  · split <;> rfl

theorem Object.marks_eq_flagFor? (map : Object) (index : UInt16) (subindex : UInt8) :
    map.marks index subindex = (map.flagFor? index subindex).getD Access.empty := by
  rw [flagFor?, mappingFlag?_eq, ← direction?]
  by_cases kind : map.kind = .array
  · cases mapping : map.direction? with
    | none => simp [marks_of_plain mapping]
    | some direction =>
        rw [marks_of_mapping kind mapping, Dictionary.grantsOf, any_references, kind]
        cases map.payload.any (·.default.refersTo index subindex) <;> rfl
  · simp [marks_of_kind kind, kind]

theorem marksOf_eq_flagsFor (objects : List Object) (index : UInt16) (subindex : UInt8)
    (access : Access) :
    access ||| Dictionary.marksOf objects index subindex =
      (flagsFor objects index subindex).foldl (· ||| ·) access := by
  induction objects generalizing access with
  | nil => exact Access.or_empty access
  | cons map rest ih =>
      have first : Dictionary.marksOf (map :: rest) index subindex =
          map.marks index subindex ||| Dictionary.marksOf rest index subindex := rfl
      rw [first, ← Access.or_assoc, ih, Object.marks_eq_flagFor?, flagsFor, flagsFor,
        List.filterMap_cons]
      cases map.flagFor? index subindex with
      | none => simp
      | some flag => rfl

theorem Object.grantEach_marksOf (o : Object) (objects : List Object) :
    o.grantEach (Dictionary.marksOf objects) = o.withFlags objects := by
  simp only [grantEach, SubObject.grant, withFlags, marksOf_eq_flagsFor]

/-! ## Compiled programs -/

/-- A program inserts objects with the permissions that it declares. They are the objects of the
compiled dictionary, in order, and all that changes behind their insertion is that each gets the
marks of the mapping arrays from its own place on. -/
theorem compile_access_masks {engine : Regex.Engine} {source : String}
    {statements : List Statement} {c : Compiled}
    (parsed : Source.parse source = .ok statements) (made : compile engine source = .ok c) :
    ∃ inserted, Resolution.insertions { engine } statements = .ok inserted ∧
      List.Forall₂ Object.Holds inserted (declaredAccesses statements) ∧
      c.device.dictionary.objects.length = inserted.length ∧
      ∀ (p : Nat) (origin : Object), inserted[p]? = some origin →
        (∃ before after : Resolution, before.dictionary.objects.length = p ∧
          before.insert origin = .ok after) ∧
        c.device.dictionary.objects[p]? =
          some (origin.withFlags (c.device.dictionary.objects.drop p)) := by
  rw [compile, parsed] at made
  obtain ⟨r, steps, done⟩ := Except.bind_eq_ok (show resolve engine statements = .ok c from made)
  cases done
  obtain ⟨inserted, computed, holds, entered, whole⟩ := Resolution.steps_insertions steps
  refine ⟨inserted, computed, holds, ?_, ?_⟩
  · rw [whole, Dictionary.length_marked]
  · intro p origin found
    obtain ⟨before, after, length, added⟩ := entered.at found
    refine ⟨⟨before, after, length.trans (Nat.zero_add p), added⟩, ?_⟩
    rw [whole, Dictionary.getElem?_marked, found, Option.map_some, ← Object.grantEach_marksOf,
      Dictionary.marksOf_drop_marked]

def Object.masks (o : Object) : List Nat :=
  o.subs.map (·.access.bits.toNat)

/-- Both directions refer to one field; the first array also refers to itself, and among the values
are some that are no references. -/
def crossedSource : String :=
  "record read in @0x6000 { UINT write level @5; UINT rate; };" ++
  " DINT out[] @0x1600 = { &in.level, -1, 0x16000220, 0 };" ++
  " REAL send[] @0x1A00 = { &in.level, 0x160000000620, 0x16000020 };"

def crossedStatements : List Statement :=
  [.record
    { place := ⟨1, 1⟩, access := Access.read, symbol := "in", instances := [],
      index := some (.literal (.int 0x6000)), description := none, properties := [],
      fields := [
        { place := ⟨1, 26⟩, typeName := "UINT", access := Access.write, symbol := "level",
          subindex := some (.literal (.int 5)), default := none, description := none },
        { place := ⟨1, 47⟩, typeName := "UINT", access := Access.empty, symbol := "rate",
          subindex := none, default := none, description := none }] },
  .array
    { place := ⟨1, 61⟩, typeName := "DINT", access := Access.empty, symbol := "out", size := none,
      index := some (.literal (.int 0x1600)), description := none, properties := [],
      values := [.symbol .reference "in.level", .literal (.int (-1)), .literal (.int 0x16000220),
        .literal (.int 0)] },
  .array
    { place := ⟨1, 116⟩, typeName := "REAL", access := Access.empty, symbol := "send",
      size := none, index := some (.literal (.int 0x1A00)), description := none, properties := [],
      values := [.symbol .reference "in.level", .literal (.int 0x160000000620),
        .literal (.int 0x16000020)] }]

theorem parse_crossed : Source.parse crossedSource = .ok crossedStatements := by
  cbv

theorem compile_access_masks_crossed :
    ∃ c inserted, compile .plain crossedSource = .ok c ∧
      Resolution.insertions { engine := .plain } crossedStatements = .ok inserted ∧
      inserted.map Object.masks = [[0x07, 0x3f, 0x07], [0x07, 0, 0, 0, 0], [0x07, 0, 0, 0]] ∧
      c.device.dictionary.objects.map Object.masks =
        [[0x07, 0xff, 0x07], [0x87, 0, 0x40, 0, 0], [0x07, 0, 0, 0]] ∧
      ∀ (p : Nat) (origin : Object), inserted[p]? = some origin →
        c.device.dictionary.objects[p]? =
          some (origin.withFlags (c.device.dictionary.objects.drop p)) := by
  have final : (resolve .plain crossedStatements).toOption.map
      (·.device.dictionary.objects.map Object.masks) =
      some [[0x07, 0xff, 0x07], [0x87, 0, 0x40, 0, 0], [0x07, 0, 0, 0]] := by
    decide +kernel
  have declared : (Resolution.insertions { engine := .plain } crossedStatements).toOption.map
      (·.map Object.masks) = some [[0x07, 0x3f, 0x07], [0x07, 0, 0, 0, 0], [0x07, 0, 0, 0]] := by
    decide +kernel
  obtain ⟨c, made, final⟩ := Option.map_eq_some_iff.mp final
  have same : compile .plain crossedSource = .ok c := by
    rw [compile, parse_crossed]
    exact Except.eq_ok_of_toOption made
  obtain ⟨inserted, computed, -, -, each⟩ := compile_access_masks parse_crossed same
  rw [computed] at declared
  refine ⟨c, inserted, same, computed, Option.some.inj declared, final, ?_⟩
  intro p origin found
  exact (each p origin found).2

end EcatDevice
