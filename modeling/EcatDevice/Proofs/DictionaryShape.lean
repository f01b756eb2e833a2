import EcatDevice.Proofs.Checked
import EcatDevice.Proofs.DictionaryChanges
import Mathlib

/-! # The shape of dictionaries

A dictionary stays well-formed along every row of changes: no two objects share an index, and every
object keeps its shape. Programs and synthesized mappings also keep all default values encodable.
Both hold after any number of calls, because a call that fails leaves the dictionary as it was.
-/

namespace EcatDevice.Dictionary

def unmarked (d : Dictionary) : Dictionary :=
  { objects := d.objects.map Object.unmarked }

structure WellFormed (d : Dictionary) : Prop where
  distinct : (d.objects.map Object.index).Nodup
  objects : ∀ o ∈ d.objects, o.WellFormed

theorem unmarked_grant (d : Dictionary) (reference : UInt32) (access : Access) :
    (d.grant reference access).unmarked = d.unmarked := by
  have same : ∀ o : Object, (if o.index = (MapRef.unpack reference).index then
      o.grant (MapRef.unpack reference).subindex access else o).unmarked = o.unmarked := by
    intro o
    split
    · exact o.unmarked_grant _ access
    · rfl
  simp only [unmarked, grant, List.map_map, Function.comp_def, same]

theorem unmarked_indices (d : Dictionary) :
    d.unmarked.objects.map Object.index = d.objects.map Object.index := by
  rw [unmarked, List.map_map]
  rfl

/-- An insertion that succeeds appends an object with a new index. -/
theorem insert_ok {d next : Dictionary} {object : Object} (made : d.insert object = .ok next) :
    next.objects = d.objects ++ [object] ∧ object.index ∉ d.objects.map Object.index := by
  unfold insert at made
  split at made
  · cases made
  · next absent =>
      cases made
      refine ⟨rfl, ?_⟩
      intro taken
      obtain ⟨other, present, same⟩ := List.mem_map.mp taken
      apply absent
      exact List.find?_isSome.mpr ⟨other, present, by simpa using same⟩

section
variable {P : Object → Prop} (stable : ∀ o : Object, P o.unmarked ↔ P o) (d : Dictionary)
include stable

theorem forall_unmarked : (∀ o ∈ d.unmarked.objects, P o) ↔ ∀ o ∈ d.objects, P o := by
  simp only [unmarked, List.forall_mem_map, stable]

theorem exists_unmarked : (∃ o ∈ d.unmarked.objects, P o) ↔ ∃ o ∈ d.objects, P o := by
  simp only [unmarked, List.mem_map, exists_exists_and_eq_and, stable]

end

section
variable {accept : Object → Prop} {d next : Dictionary}

theorem Change.distinct (change : Change accept d next)
    (distinct : (d.objects.map Object.index).Nodup) : (next.objects.map Object.index).Nodup := by
  cases change with
  | insert accepted made =>
      obtain ⟨objects, fresh⟩ := insert_ok made
      rw [objects, List.map_append]
      exact List.nodup_append_comm.mpr (List.nodup_cons.mpr ⟨fresh, distinct⟩)
  | grant reference access => rwa [← unmarked_indices, unmarked_grant, unmarked_indices]

/-- What accepted objects have in common, marks aside, all objects keep. -/
theorem Change.all_objects {P : Object → Prop} (stable : ∀ o : Object, P o.unmarked ↔ P o)
    (good : ∀ o, accept o → P o) (change : Change accept d next) (all : ∀ o ∈ d.objects, P o) :
    ∀ o ∈ next.objects, P o := by
  cases change with
  | insert accepted made =>
      rw [(insert_ok made).1]
      exact List.forall_mem_append.mpr ⟨all, List.forall_mem_singleton.mpr (good _ accepted)⟩
  | grant reference access =>
      rwa [← forall_unmarked stable, unmarked_grant, forall_unmarked stable]

theorem Changes.all_objects {P : Object → Prop} (stable : ∀ o : Object, P o.unmarked ↔ P o)
    (good : ∀ o, accept o → P o) (changes : Changes accept d next)
    (all : ∀ o ∈ d.objects, P o) : ∀ o ∈ next.objects, P o := by
  induction changes with
  | refl => exact all
  | tail _ change ih => exact change.all_objects stable good ih

theorem Changes.wellFormed (good : ∀ o, accept o → o.WellFormed) (changes : Changes accept d next)
    (formed : d.WellFormed) : next.WellFormed := by
  refine ⟨?_, changes.all_objects Object.wellFormed_unmarked good formed.objects⟩
  induction changes with
  | refl => exact formed.distinct
  | tail _ change ih => exact change.distinct ih

theorem Changes.accepted_wellFormed (changes : Changes Accepted d next) (formed : d.WellFormed) :
    next.WellFormed :=
  changes.wellFormed (fun _ accepted => accepted.1.wellFormed) formed

end

/-! ## Calls -/

inductive Call where
  | insert (object : Object)
  | synthesize (mapIndex sourceIndex : UInt16)

namespace Call

def run (d : Dictionary) : Call → Except Error Dictionary
  | .insert object => d.insert object
  | .synthesize mapIndex sourceIndex => d.synthesizeMap mapIndex sourceIndex

/-- The dictionary behind a call; one that fails leaves it as it was. -/
def after (d : Dictionary) (call : Call) : Dictionary :=
  match call.run d with
  | .ok next => next
  | .error _ => d

end Call

def afterCalls (d : Dictionary) (calls : List Call) : Dictionary :=
  calls.foldl Call.after d

/-- A dictionary to start from: the empty one or a compiled one. -/
inductive Start : Dictionary → Prop where
  | empty : Start Dictionary.empty
  | compiled {engine : Regex.Engine} {source : String} {c : Compiled} :
      compile engine source = .ok c → Start c.device.dictionary

theorem Start.changes {d : Dictionary} (start : Start d) :
    Changes Accepted Dictionary.empty d := by
  cases start with
  | empty => exact .refl
  | compiled made => exact compile_changes made

section
variable {accept : Object → Prop} (synthesized : ∀ o, Accepted o → accept o)
include synthesized

/-- A call is a row of changes, whether it succeeds or fails. -/
theorem Call.after_changes (d : Dictionary) (call : Call)
    (inserted : ∀ object, call = .insert object → accept object) :
    Changes accept d (call.after d) := by
  unfold Call.after
  split
  · next made =>
      cases call with
      | insert object => exact .single (.insert (inserted object rfl) made)
      | synthesize mapIndex sourceIndex => exact (synthesizeMap_changes made).weaken synthesized
  · exact .refl

theorem afterCalls_changes (d : Dictionary) (calls : List Call)
    (inserted : ∀ object, .insert object ∈ calls → accept object) :
    Changes accept d (afterCalls d calls) := by
  induction calls generalizing d with
  | nil => exact .refl
  | cons call rest ih =>
      have first := call.after_changes synthesized d
        (fun object same => inserted object (same ▸ List.mem_cons_self))
      exact first.trans (ih _ fun object later => inserted object (List.mem_cons_of_mem _ later))

end

/-- Every dictionary that calls can reach is well-formed, whether they succeed or fail. Without
insertions from outside all its default values have an encoding. -/
theorem afterCalls_wellFormed {d : Dictionary} (start : Start d) (calls : List Call)
    (built : ∀ object, .insert object ∈ calls → object.Built) :
    (afterCalls d calls).WellFormed ∧
      ((∀ object, .insert object ∉ calls) → ∀ o ∈ (afterCalls d calls).objects, o.Encodes) := by
  constructor
  · have before : Changes Object.Built empty d := start.changes.weaken fun _ => And.left
    have changes : Changes Object.Built empty (afterCalls d calls) :=
      before.trans (afterCalls_changes (fun _ => And.left) d calls built)
    exact changes.wellFormed (fun _ => Object.Built.wellFormed)
      ⟨List.nodup_nil, List.forall_mem_nil _⟩
  · intro alone
    have changes : Changes Accepted empty (afterCalls d calls) :=
      start.changes.trans (afterCalls_changes (fun _ => id) d calls
        (fun object member => absurd member (alone object)))
    exact changes.all_objects Object.encodes_unmarked (fun _ => And.right) (List.forall_mem_nil _)

/-- A record with a gap between its subindices, and a mapping of its field. -/
def sampleSource : String :=
  "record read in @0x6000 { UINT level @5 = 7; }; UDINT map[] @0x1A00 = { &in.level };"

def sampleStatements : List Statement := [
  .record {
    place := ⟨1, 1⟩, access := Access.read, symbol := "in", instances := [],
    index := some (.literal (.int 0x6000)), description := none, properties := [],
    fields := [{
      place := ⟨1, 26⟩, typeName := "UINT", access := Access.empty, symbol := "level",
      subindex := some (.literal (.int 5)), default := some (.literal (.int 7)),
      description := none }] },
  .array {
    place := ⟨1, 48⟩, typeName := "UDINT", access := Access.empty, symbol := "map", size := none,
    index := some (.literal (.int 0x1A00)), description := none, properties := [],
    values := [.symbol .reference "in.level"] }]

/-- A mapping that succeeds, the same one again, and one of an object that does not exist. -/
def sampleCalls : List Call :=
  [.synthesize 0x1600 0x6000, .synthesize 0x1600 0x6000, .synthesize 0x1601 0x7000]

/-- A number whose default value is a text. -/
def sampleObject : Object :=
  Object.single 0x2000 "limit" "Limit" Access.read BasicType.udint (.str "none")

theorem parse_sample : Source.parse sampleSource = .ok sampleStatements := by
  cbv

theorem afterCalls_wellFormed_sample :
    (∃ c, compile .plain sampleSource = .ok c ∧ (∀ object, .insert object ∉ sampleCalls) ∧
      (afterCalls c.device.dictionary sampleCalls).objects.length = 3 ∧
      (afterCalls c.device.dictionary sampleCalls).WellFormed ∧
      ∀ o ∈ (afterCalls c.device.dictionary sampleCalls).objects, o.Encodes) ∧
    sampleObject.Built ∧ (afterCalls empty [.insert sampleObject]).WellFormed := by
  have alone : ∀ object, Call.insert object ∉ sampleCalls := by
    intro object member
    simp [sampleCalls] at member
  have built : sampleObject.Built := .single _ _ _ _ _ _ _
  have count : (resolve .plain sampleStatements).toOption.map (fun c =>
      (afterCalls c.device.dictionary sampleCalls).objects.length) = some 3 := by
    decide +kernel
  have same : compile .plain sampleSource = resolve .plain sampleStatements := by
    rw [compile, parse_sample]
    rfl
  constructor
  · obtain ⟨c, made, count⟩ := Except.exists_ok_of_shown count
    rw [made] at same
    have all := afterCalls_wellFormed (.compiled same) sampleCalls
      (fun object member => absurd member (alone object))
    exact ⟨c, same, alone, count, all.1, all.2 alone⟩
  · refine ⟨built, (afterCalls_wellFormed .empty [.insert sampleObject] ?_).1⟩
    intro object member
    cases List.mem_singleton.mp member
    exact built

end EcatDevice.Dictionary
