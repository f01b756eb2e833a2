import EcatDevice.Proofs.MappingArrays
import EcatDevice.Proofs.Marks
import Mathlib

/-! # Causality of resolution

What comes later in a program cannot reach back. A program that fails keeps failing with the same
error whatever is appended to it. One that resolves has the same directives and the same objects in
front of those of every longer program that resolves; only the marks of process data can be more
there, because later mapping arrays may refer to earlier sub-objects.
-/

namespace EcatDevice

/-- What mapping arrays can add to a mask. -/
def Access.pdoMasks : List Access := [empty, rxPdo, txPdo, rxPdo ||| txPdo]

theorem Access.or_mem_pdoMasks : ∀ a ∈ pdoMasks, ∀ b ∈ pdoMasks, a ||| b ∈ pdoMasks := by
  intro a first b second
  simp only [pdoMasks, List.mem_cons, List.not_mem_nil, or_false] at first second
  rcases first with rfl | rfl | rfl | rfl <;> rcases second with rfl | rfl | rfl | rfl <;> decide

theorem Object.marks_mem_pdoMasks (o : Object) (index : UInt16) (subindex : UInt8) :
    o.marks index subindex ∈ Access.pdoMasks := by
  unfold marks
  split
  · next direction _ _ =>
      unfold Dictionary.grantsOf
      split
      · cases direction <;> decide
      · decide
  · decide

/-! ## Objects that only gain marks -/

def SubObject.Gains (sub later : SubObject) : Prop :=
  ∃ gained ∈ Access.pdoMasks, later = { sub with access := sub.access ||| gained }

def Object.Gains (o later : Object) : Prop :=
  ∃ subs, List.Forall₂ SubObject.Gains o.subs subs ∧ later = { o with subs }

/-- Object by object the beginning of a later dictionary. -/
def Dictionary.Precedes (d later : Dictionary) : Prop :=
  List.Forall₂ Object.Gains d.objects (later.objects.take d.objects.length)

theorem forall₂_trans {α : Type} {R : α → α → Prop}
    (trans : ∀ a b c, R a b → R b c → R a c) {left middle right : List α}
    (first : List.Forall₂ R left middle) (second : List.Forall₂ R middle right) :
    List.Forall₂ R left right := by
  induction first generalizing right with
  | nil => exact second
  | cons head _ ih =>
      cases second with
      | cons head' tail => exact .cons (trans _ _ _ head head') (ih tail)

theorem SubObject.Gains.trans (sub middle later : SubObject) (first : sub.Gains middle)
    (second : middle.Gains later) : sub.Gains later := by
  obtain ⟨one, listed, rfl⟩ := first
  obtain ⟨two, listedTwo, rfl⟩ := second
  exact ⟨one ||| two, Access.or_mem_pdoMasks one listed two listedTwo,
    by rw [Access.or_assoc]⟩

theorem Object.Gains.trans (o middle later : Object) (first : o.Gains middle)
    (second : middle.Gains later) : o.Gains later := by
  obtain ⟨subs, each, rfl⟩ := first
  obtain ⟨last, eachLast, rfl⟩ := second
  exact ⟨last, forall₂_trans SubObject.Gains.trans each eachLast, rfl⟩

theorem Object.gains_grantEach (o map : Object) : o.Gains (o.grantEach map.marks) := by
  refine ⟨_, ?_, rfl⟩
  rw [List.forall₂_map_right_iff, List.forall₂_same]
  intro sub _
  exact ⟨_, map.marks_mem_pdoMasks _ _, rfl⟩

namespace Dictionary

theorem Precedes.refl (d : Dictionary) : d.Precedes d := by
  unfold Precedes
  rw [List.take_length, List.forall₂_same]
  intro o _
  refine ⟨o.subs, List.forall₂_same.mpr fun sub _ => ?_, rfl⟩
  exact ⟨Access.empty, List.mem_cons_self, by rw [Access.or_empty]⟩

theorem Precedes.trans {d middle later : Dictionary} (first : d.Precedes middle)
    (second : middle.Precedes later) : d.Precedes later := by
  have inside : d.objects.length ≤ middle.objects.length := by
    have length := first.length_eq
    rw [List.length_take] at length
    omega
  have cut := List.forall₂_take d.objects.length second
  rw [List.take_take, Nat.min_eq_left inside] at cut
  exact forall₂_trans Object.Gains.trans first cut

theorem precedes_declare (d : Dictionary) (object : Object) : d.Precedes (d.declare object) := by
  unfold Precedes declare
  rw [← List.map_take, List.take_left, List.forall₂_map_right_iff, List.forall₂_same]
  intro o _
  exact o.gains_grantEach object

theorem Enters.precedes {declared : List (Nat → Access)} {d next : Dictionary}
    (enters : Enters d declared next) : d.Precedes next := by
  induction enters with
  | none => exact .refl d
  | more _ _ ih => exact ih.trans (precedes_declare _ _)

end Dictionary

/-! ## Programs -/

/-- Statements that are appended to a program change neither its error nor, marks aside, what it
declares. -/
theorem resolve_append (engine : Regex.Engine) (before after : List Statement) :
    (∀ e, resolve engine before = .error e → resolve engine (before ++ after) = .error e) ∧
    ∀ c, resolve engine (before ++ after) = .ok c →
      ∃ b, resolve engine before = .ok b ∧ b.makes <+: c.makes ∧
        b.device.dictionary.Precedes c.device.dictionary := by
  simp only [resolve, List.foldlM_append]
  cases stepped : before.foldlM Resolution.step { engine } with
  | error e =>
      refine ⟨fun _ failed => ?_, fun c made => ?_⟩
      · cases failed
        rfl
      · cases made
  | ok r =>
      refine ⟨fun _ failed => ?_, fun c made => ?_⟩
      · cases failed
      · obtain ⟨last, behind, made⟩ := Except.bind_eq_ok made
        cases made
        refine ⟨_, rfl, (Resolution.steps_apart behind).2, ?_⟩
        exact (Resolution.steps_enters (Resolution.steps_wellFormed stepped) behind).precedes

/-- The mask of the second sub-object of the first object. -/
def firstMask (c : Compiled) : Option Access := do
  let o ← c.device.dictionary.objects[0]?
  let sub ← o.subs[1]?
  return sub.access

theorem resolve_append_mapping :
    (∃ b c, resolve .plain [.record mappedRecord] = .ok b ∧
      resolve .plain ([.record mappedRecord] ++ [.array mappingArray, .array nextArray]) = .ok c ∧
      firstMask b = some Access.read ∧ firstMask c = some (Access.read ||| Access.txPdo) ∧
      b.makes <+: c.makes ∧ b.device.dictionary.Precedes c.device.dictionary) ∧
    resolve .plain ([.array nextArray] ++ [.record mappedRecord]) =
      .error (.undefinedSymbol "in.rate") := by
  constructor
  · have masks : (resolve .plain ([.record mappedRecord] ++ [.array mappingArray, .array nextArray])
        ).toOption.bind firstMask = some (Access.read ||| Access.txPdo) := by
      decide +kernel
    have masksBefore : (resolve .plain [.record mappedRecord]).toOption.bind firstMask =
        some Access.read := by
      decide +kernel
    obtain ⟨c, made, mask⟩ := Option.bind_eq_some_iff.mp masks
    have same := Except.eq_ok_of_toOption made
    obtain ⟨b, before, makes, precedes⟩ := (resolve_append _ _ _).2 c same
    rw [before] at masksBefore
    exact ⟨b, c, before, same, masksBefore, mask, makes, precedes⟩
  · refine (resolve_append _ _ _).1 _ ?_
    have failed : (match resolve .plain [.array nextArray] with
        | .ok _ => none
        | .error e => some e) = some (Error.undefinedSymbol "in.rate") := by
      decide +kernel
    cases made : resolve .plain [.array nextArray] with
    | ok c =>
        rw [made] at failed
        cases failed
    | error e =>
        rw [made] at failed
        exact congrArg Except.error (Option.some.inj failed)

end EcatDevice
