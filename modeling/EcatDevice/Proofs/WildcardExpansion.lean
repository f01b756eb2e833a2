import EcatDevice.Proofs.GlobMatching
import EcatDevice.Proofs.MappingReferences
import EcatDevice.Proofs.ParsedNames
import EcatDevice.Proofs.SortingAscends
import EcatDevice.Proofs.SymbolTable
import Mathlib

/-! # Expansion of patterns

A pattern under one of the two operators that give numbers stands for the numbers of all names it
matches, ascending and once for each name. References are even strictly ascending, since no two
names stand for one sub-object.
-/

namespace EcatDevice

/-! ## Integers in order -/

/-- An integer as a key; other values are not asked for theirs. -/
def Value.sortKey : Value → Int
  | .int n => n.toInt
  | _ => 0

theorem Value.compares_int {α : Type} (f : α → Int64) (items : List α) :
    Sorting.Compares (fun v w : Value => v.order w == .lt) Value.sortKey
      (items.map fun x => .int (f x)) := by
  intro v memberV w memberW
  obtain ⟨x, -, rfl⟩ := List.mem_map.mp memberV
  obtain ⟨y, -, rfl⟩ := List.mem_map.mp memberW
  simp [Value.order, Value.sortKey, compare_lt_iff_lt]

/-- Whatever carries integers is put in their order, with nothing lost. -/
theorem Value.sort?_int {α : Type} (f : α → Int64) (items : List α) :
    ∃ sorted : List α, sorted.Perm items ∧ sorted.Pairwise (f · ≤ f ·) ∧
      Value.sort? (items.map fun x => .int (f x)) = some (sorted.map fun x => .int (f x)) := by
  obtain ⟨out, sorts, ascends⟩ := Sorting.sort_ascends (Value.compares_int f items)
  obtain ⟨sorted, rfl, perm⟩ :=
    (congrFun₂ (List.eq_map_comp_perm _) out items).mpr (Sorting.sort_perm sorts)
  refine ⟨sorted, perm, ?_, sorts⟩
  exact (List.pairwise_map.mp ascends).imp Int64.le_iff_toInt_le.mpr

/-! ## Matching names -/

theorem Entity.view_int {e : Entity} {find : Finder} {view : View} (number : view ≠ .default)
    {name : String} {value : Value} (viewed : e.view find view name = .ok value) :
    ∃ n, value = .int n := by
  cases view with
  | default => exact absurd rfl number
  | reference =>
      obtain ⟨_, -, viewed⟩ := Except.bind_eq_ok viewed
      cases viewed
      exact ⟨_, rfl⟩
  | index =>
      obtain ⟨_, -, viewed⟩ := Except.bind_eq_ok viewed
      cases viewed
      exact ⟨_, rfl⟩

/-- The only reason for a name to have no value is that it lacks the view. -/
theorem Entity.view_error {e : Entity} {find : Finder} {view : View} {name : String} {error : Error}
    (failed : e.view find view name = .error error) :
    ∃ operand, error = .nonReferenceable operand := by
  cases view with
  | default =>
      dsimp only [Entity.view] at failed
      unfold defaultOf at failed
      split at failed
      · cases failed
      · split at failed
        · cases failed
        · cases failed
          exact ⟨_, rfl⟩
  | reference =>
      dsimp only [Entity.view] at failed
      unfold referenceOf at failed
      split at failed
      · cases failed
      · cases failed
        exact ⟨_, rfl⟩
  | index =>
      dsimp only [Entity.view] at failed
      unfold indexOf at failed
      split at failed
      · cases failed
      · cases failed
      · cases failed
        exact ⟨_, rfl⟩

namespace Scope

variable {scope : Scope} {view : View} {test : String → Bool} {pattern name : String} {n : Int64}

theorem look_eq_ok {value : Value} : scope.look view name = .ok value ↔
    ∃ e, scope.symbols[name]? = some e ∧ e.view scope.find view name = .ok value := by
  unfold look
  split <;> simp [*]

theorem pick_eq (scope : Scope) (view : View) (name : String) (e : Entity) :
    scope.pick view name e = .ok (e.view scope.find view name).toOption := by
  unfold pick
  split
  · next viewed => rw [viewed, Except.toOption]
  · next viewed => rw [viewed, Except.toOption]
  · next error other viewed =>
      obtain ⟨operand, rfl⟩ := e.view_error viewed
      exact absurd rfl (other operand)

/-- The number that an entry of the symbol table adds to those of a pattern. -/
def number? (scope : Scope) (view : View) (test : String → Bool) (name : String) (e : Entity) :
    Option Int64 :=
  if test name then (e.view scope.find view name).toOption.bind Value.int? else none

theorem number?_eq_some {e : Entity} : scope.number? view test name e = some n ↔
    test name = true ∧ e.view scope.find view name = .ok (.int n) := by
  rw [number?]
  cases e.view scope.find view name with
  | error _ => simp [Except.toOption]
  | ok value => cases value <;> simp [Except.toOption, Value.int?]

/-- The names that pass a test, in their order and with their numbers. -/
def numbered (scope : Scope) (view : View) (test : String → Bool) : List (String × Int64) :=
  scope.symbols.toList.filterMap fun (name, e) =>
    (scope.number? view test name e).map (name, ·)

theorem matching_eq_numbered (number : view ≠ .default) :
    scope.matching view test =
      .ok ((scope.numbered view test).map fun entry => .int entry.2) := by
  have picked : (scope.symbols.toList.filter fun (name, _) => test name).mapM
      (fun (name, entity) => scope.pick view name entity) =
      .ok ((scope.symbols.toList.filter fun (name, _) => test name).map
        fun (name, e) => (e.view scope.find view name).toOption) := by
    simp only [pick_eq]
    exact List.mapM_pure
  rw [matching, picked]
  refine congrArg Except.ok ?_
  rw [numbered, List.map_filterMap, List.filterMap_map, List.filterMap_filter]
  congr 1
  funext ⟨name, e⟩
  dsimp only [number?, Function.comp_apply, id]
  split
  · cases viewed : e.view scope.find view name with
    | error _ => rfl
    | ok value =>
        obtain ⟨n, rfl⟩ := e.view_int number viewed
        rfl
  · rfl

theorem mem_numbered : (name, n) ∈ scope.numbered view test ↔
    test name = true ∧ scope.look view name = .ok (.int n) := by
  rw [numbered, List.mem_filterMap]
  constructor
  · rintro ⟨⟨other, e⟩, member, kept⟩
    obtain ⟨_, counted, same⟩ := Option.map_eq_some_iff.mp kept
    cases same
    obtain ⟨passed, viewed⟩ := number?_eq_some.mp counted
    have found := Std.ExtTreeMap.mem_toList_iff_getElem?_eq_some.mp member
    exact ⟨passed, look_eq_ok.mpr ⟨e, found, viewed⟩⟩
  · rintro ⟨passed, looked⟩
    obtain ⟨e, found, viewed⟩ := look_eq_ok.mp looked
    refine ⟨(name, e), Std.ExtTreeMap.mem_toList_iff_getElem?_eq_some.mpr found, ?_⟩
    simp [number?_eq_some.mpr ⟨passed, viewed⟩]

theorem numbered_nodup : ((scope.numbered view test).map Prod.fst).Nodup := by
  rw [numbered, List.map_filterMap, List.Nodup, List.pairwise_filterMap]
  refine Std.ExtTreeMap.distinct_keys_toList.imp ?_
  rintro ⟨a, e⟩ ⟨b, f⟩ distinct _ keptA _ keptB rfl
  simp only [Option.map_map, Option.map_eq_some_iff, Function.comp_apply, exists_and_right]
    at keptA keptB
  exact distinct (compare_eq_iff_eq.mpr (keptA.2.trans keptB.2.symm))

/-- What a pattern stands for: the names that match it and have the view, each once and with its
number, in the order of the numbers. -/
structure Expansion (scope : Scope) (view : View) (pattern : String)
    (entries : List (String × Int64)) : Prop where
  names : ∀ name, name ∈ entries.map Prod.fst ↔
    Glob.Matches pattern.toList name.toList ∧ ∃ value, scope.look view name = .ok value
  nodup : (entries.map Prod.fst).Nodup
  numbers : ∀ entry ∈ entries, scope.look view entry.1 = .ok (.int entry.2)
  ascends : entries.Pairwise (·.2 ≤ ·.2)

/-- With an engine that decides a pattern, the pattern is always expanded. -/
theorem expandPattern_expansion (decides : scope.engine.Decides (pattern.toList.map Glob.item))
    (noFeed : ∀ name ∈ scope.symbols, '\n' ∉ name.toList) (number : view ≠ .default) :
    ∃ entries, scope.expandPattern view pattern = .ok (entries.map fun entry => .int entry.2) ∧
      Expansion scope view pattern entries := by
  obtain ⟨test, compiled, decided⟩ := Glob.matcher_decides decides
  obtain ⟨entries, perm, ascends, sorts⟩ := Value.sort?_int Prod.snd (scope.numbered view test)
  have passes {name : String} {value : Value} (looked : scope.look view name = .ok value) :
      test name = true ↔ Glob.Matches pattern.toList name.toList := by
    obtain ⟨e, found, -⟩ := look_eq_ok.mp looked
    refine decided name (noFeed name ?_)
    rw [Std.ExtTreeMap.mem_iff_isSome_getElem?, found, Option.isSome_some]
  refine ⟨entries, ?_, ?_, ?_, ?_, ascends⟩
  · simp only [expandPattern, compiled, matching_eq_numbered number, bind, Except.bind, sorts]
  · intro name
    rw [(perm.map Prod.fst).mem_iff, List.mem_map]
    constructor
    · rintro ⟨⟨name, n⟩, member, rfl⟩
      obtain ⟨passed, looked⟩ := mem_numbered.mp member
      exact ⟨(passes looked).mp passed, _, looked⟩
    · rintro ⟨matched, value, looked⟩
      obtain ⟨e, -, viewed⟩ := look_eq_ok.mp looked
      obtain ⟨n, rfl⟩ := e.view_int number viewed
      exact ⟨(name, n), mem_numbered.mpr ⟨(passes looked).mpr matched, looked⟩, rfl⟩
  · exact (perm.map Prod.fst).nodup_iff.mpr numbered_nodup
  · intro entry member
    exact (mem_numbered.mp (perm.mem_iff.mp member)).2

/-- Different numbers for different names make the order strict. -/
theorem Expansion.strict {entries : List (String × Int64)}
    (expansion : Expansion scope view pattern entries)
    (injective : ∀ a b value,
      scope.look view a = .ok value → scope.look view b = .ok value → a = b) :
    entries.Pairwise (·.2 < ·.2) := by
  have distinct := List.pairwise_map.mp expansion.nodup
  refine (expansion.ascends.and distinct).imp_of_mem fun {a b} memberA memberB ⟨le, ne⟩ => ?_
  refine Int64.lt_of_le_of_ne le fun same => ne (injective _ _ _ (expansion.numbers a memberA) ?_)
  rw [same]
  exact expansion.numbers b memberB

end Scope

/-! ## Patterns in a program -/

theorem SubObject.reference_of_referenceValue {sub twin : SubObject}
    (same : sub.referenceValue = twin.referenceValue) : sub.reference = twin.reference := by
  have small : ∀ n : UInt32, (Int64.ofNat n.toNat).toInt = n.toNat := fun n =>
    Int64.toInt_ofNat_of_lt (n.toNat_lt.trans (by decide))
  have number := congrArg Int64.toInt (Value.int.inj same)
  rw [small, small] at number
  exact UInt32.toNat.inj (Int.ofNat.inj number)

namespace Resolution

/-- No two names have one reference. -/
theorem Named.look_reference_injective {r : Resolution} (named : r.Named)
    (formed : r.dictionary.WellFormed) {a b : String} {value : Value}
    (lookedA : r.scope.look .reference a = .ok value)
    (lookedB : r.scope.look .reference b = .ok value) : a = b := by
  obtain ⟨e, foundA, viewedA⟩ := Scope.look_eq_ok.mp lookedA
  obtain ⟨f, foundB, viewedB⟩ := Scope.look_eq_ok.mp lookedB
  obtain ⟨sub, denotesA, rfl⟩ := e.view_reference viewedA
  obtain ⟨twin, denotesB, same⟩ := f.view_reference viewedB
  obtain ⟨o, memberA, namesA⟩ := (named a e foundA).resolve_left (e.not_isLiteral_of_sub? denotesA)
  obtain ⟨p, memberB, namesB⟩ := (named b f foundB).resolve_left (f.not_isLiteral_of_sub? denotesB)
  obtain ⟨_, presentA, partA⟩ := Dictionary.mem_of_sub? denotesA
  obtain ⟨_, presentB, partB⟩ := Dictionary.mem_of_sub? denotesB
  have twins : sub = twin := by
    have foundSub := Dictionary.find?_reference formed presentA partA
    rw [SubObject.reference_of_referenceValue same,
      Dictionary.find?_reference formed presentB partB] at foundSub
    exact (Option.some.inj foundSub).symm
  have entity : e = f := by
    rw [namesA.eq_of_sub? formed denotesA, namesB.eq_of_sub? formed denotesB, twins]
  exact namesA.unique formed memberA memberB (entity ▸ namesB)

/-- Whenever a program is resolved with an engine that decides a pattern, the pattern under an
operator that gives numbers stands for the numbers of just the names that match it. -/
theorem expand_pattern_exact {engine : Regex.Engine} {source : String}
    {before after : List Statement} (parsed : Source.parse source = .ok (before ++ after))
    {r : Resolution} (made : before.foldlM step { engine } = .ok r) {view : View}
    (number : view ≠ .default) {pattern : String} (isPattern : Glob.isPattern pattern = true)
    (decides : engine.Decides (pattern.toList.map Glob.item)) :
    ∃ entries, r.scope.expand (.symbol view pattern) =
        .ok (entries.map fun entry => .int entry.2,
          if entries.isEmpty then [.unmatched pattern] else []) ∧
      Scope.Expansion r.scope view pattern entries ∧
      (view = .reference → entries.Pairwise (·.2 < ·.2)) := by
  have same : r.scope.engine = engine := (steps_apart made).1
  have noFeed : ∀ name ∈ r.scope.symbols, '\n' ∉ name.toList := by
    intro name declared feed
    exact absurd (steps_spelled parsed made declared '\n' feed) (by decide)
  obtain ⟨entries, expands, expansion⟩ :=
    Scope.expandPattern_expansion (same.symm ▸ decides) noFeed number
  refine ⟨entries, ?_, expansion, ?_⟩
  · rw [Scope.expand, if_pos isPattern, expands]
    simp [bind, Except.bind, pure, Except.pure]
  · rintro rfl
    exact expansion.strict fun _ _ _ =>
      (steps_named made).look_reference_injective (steps_wellFormed made)

/-- Two variables whose names stand in the other order than their indices, an array and a plain
value. -/
def levelSource : String :=
  "UINT level.a @0x3000; UINT level.b @0x2000; UINT level.c[2]; level.d = 4;"

def levelStatements : List Statement :=
  let level (column : Nat) (symbol : String) (index : Int64) : Statement := .variable {
    place := ⟨1, column⟩, typeName := "UINT", access := Access.empty, symbol,
    index := some (.literal (.int index)), default := none, description := none, properties := [] }
  [level 1 "level.a" 0x3000, level 23 "level.b" 0x2000,
    .array {
      place := ⟨1, 45⟩, typeName := "UINT", access := Access.empty, symbol := "level.c",
      index := none, size := some (.literal (.int 2)), values := [], description := none,
      properties := [] },
    .assign { place := ⟨1, 62⟩, symbol := "level.d", value := .literal (.int 4) }]

theorem parse_level : Source.parse levelSource = .ok (levelStatements ++ []) := by
  cbv

theorem expand_pattern_exact_level : ∃ r entries,
    levelStatements.foldlM step { engine := .plain } = .ok r ∧
    Regex.Engine.plain.Decides ("l*.?".toList.map Glob.item) ∧
    r.scope.Expansion .reference "l*.?" entries ∧
    entries.map (·.2) = [0x20000010, 0x30000010] ∧ entries.Pairwise (·.2 < ·.2) := by
  have values : (levelStatements.foldlM step { engine := .plain }).toOption.map (fun r =>
      (r.scope.expand (.symbol .reference "l*.?")).toOption) =
      some (some ([.int 0x20000010, .int 0x30000010], [])) := by
    decide +kernel
  obtain ⟨r, made, values⟩ := Except.exists_ok_of_shown values
  have number : View.reference ≠ .default := nofun
  have isPattern : Glob.isPattern "l*.?" = true := by decide
  have decides := Regex.plain_decides ("l*.?".toList.map Glob.item)
  obtain ⟨entries, expands, expansion, strict⟩ :=
    expand_pattern_exact parse_level made number isPattern decides
  refine ⟨r, entries, made, decides, expansion, ?_, strict rfl⟩
  simp only [Except.toOption, expands, Option.some.injEq, Prod.mk.injEq] at values
  have same : (entries.map (·.2)).map Value.int = [0x20000010, 0x30000010].map Value.int := by
    rw [List.map_map]
    exact values.1
  exact List.map_injective_iff.mpr (fun _ _ => Value.int.inj) same

end Resolution

end EcatDevice
