import EcatDevice.Settings.Basic
import Mathlib.Tactic

/-! # Values of settings

What a key has behind an insertion, in settings from a list and in merged settings, and the integer
that a key stands for when it may be missing.
-/

namespace EcatDevice.Settings

theorem get?_insert (s : Settings) (key other : String) (value : Value) :
    (s.insert key value).get? other = if key = other then some value else s.get? other := by
  simp only [get?, insert, Std.ExtTreeMap.getElem?_insert, Std.LawfulEqCmp.compare_eq_iff_eq]

/-- Settings from a list without repeated keys have the entries of the list. -/
theorem get?_ofList {entries : List (String × Value)}
    (distinct : entries.Pairwise fun first second => first.1 ≠ second.1) {key : String}
    {value : Value} : (ofList entries).get? key = some value ↔ (key, value) ∈ entries := by
  -- Entries go in from the left, so the last one decides about its key.
  induction entries using List.reverseRecOn with
  | nil => simp [ofList, get?, empty]
  | append_singleton front last ih =>
      obtain ⟨before, -, apart⟩ := List.pairwise_append.mp distinct
      have step : ofList (front ++ [last]) = (ofList front).insert last.1 last.2 := by
        rw [ofList, List.foldl_append]
        rfl
      rw [step, get?_insert, List.mem_append, List.mem_singleton]
      split
      · next same =>
          have absent : (key, value) ∉ front := fun member =>
            apart _ member last List.mem_cons_self same.symm
          subst same
          simp only [Option.some.injEq, absent, false_or, Prod.ext_iff, true_and, eq_comm]
      · next other =>
          have differs : (key, value) ≠ last := fun same => other (congrArg Prod.fst same).symm
          simp only [ih before, differs, or_false]

/-! ## Merging -/

theorem ext_get? {s t : Settings} (same : ∀ key, s.get? key = t.get? key) : s = t := by
  obtain ⟨values⟩ := s
  obtain ⟨others⟩ := t
  exact congrArg Settings.mk (Std.ExtTreeMap.ext_getElem? fun key => same key)

theorem get?_empty (key : String) : empty.get? key = none := by
  simp [empty, get?]

theorem ofList_toList (s : Settings) : ofList s.toList = s := by
  have distinct : s.toList.Pairwise fun first second => first.1 ≠ second.1 := by
    apply Std.ExtTreeMap.distinct_keys_toList.imp
    simp
  apply ext_get?
  intro key
  apply Option.ext
  intro value
  rw [get?_ofList distinct]
  exact Std.ExtTreeMap.mem_toList_iff_getElem?_eq_some

theorem get?_foldl_insert (s : Settings) (entries : List (String × Value)) (key : String) :
    (entries.foldl (fun s entry => s.insert entry.1 entry.2) s).get? key =
      ((ofList entries).get? key).or (s.get? key) := by
  induction entries using List.reverseRecOn with
  | nil => simp [ofList, get?_empty]
  | append_singleton front last ih =>
      simp only [ofList, List.foldl_append, List.foldl_cons, List.foldl_nil, get?_insert] at ih ⊢
      split
      · rfl
      · exact ih

/-- Merged settings have the values of the later ones first. -/
theorem get?_merge (s other : Settings) (key : String) :
    (s.merge other).get? key = (other.get? key).or (s.get? key) := by
  rw [merge, get?_foldl_insert, ofList_toList]

/-! ## Integers -/

/-- The integer a key stands for: its own, or the fallback if it has no value. -/
def Gives (s : Settings) (key : String) (fallback n : Int64) : Prop :=
  s.get? key = some (.int n) ∨ s.get? key = none ∧ n = fallback

theorem Gives.congr {s other : Settings} {key : String} {fallback n : Int64}
    (given : other.Gives key fallback n) (same : other.get? key = s.get? key) :
    s.Gives key fallback n := by
  unfold Gives at given ⊢
  rwa [← same]

theorem contains_eq (s : Settings) (key : String) : s.contains key = (s.get? key).isSome :=
  Std.ExtTreeMap.contains_eq_isSome_getElem?

theorem flag_congr {s other : Settings} {key : String} (same : other.get? key = s.get? key) :
    other.flag key = s.flag key := by
  simp only [flag, same]

theorem ne_none_of_flag {s : Settings} {key : String} (on : s.flag key = true) :
    s.get? key ≠ none := by
  intro missing
  simp [flag, missing] at on

theorem intOr_congr {s other : Settings} {key : String} (same : other.get? key = s.get? key)
    (fallback : Int64) : other.intOr key fallback = s.intOr key fallback := by
  simp only [intOr, int, contains_eq, same]

theorem int_ok {s : Settings} {key : String} {n : Int64} :
    s.int key = .ok n ↔ s.get? key = some (.int n) := by
  unfold int
  cases s.get? key with
  | none => simp
  | some value => cases value <;> simp

theorem intOr_ok {s : Settings} {key : String} {fallback n : Int64} :
    s.intOr key fallback = .ok n ↔ s.Gives key fallback n := by
  unfold intOr int Gives
  rw [contains_eq]
  cases s.get? key with
  | none => simp [eq_comm]
  | some value => cases value <;> simp

theorem intOr_error {s : Settings} {key : String} {fallback : Int64} {e : Error} :
    s.intOr key fallback = .error e ↔ ∃ value, s.get? key = some value ∧ value.int? = none ∧
      e = .typeMismatch key "integer" value.display := by
  unfold intOr int
  rw [contains_eq]
  cases s.get? key with
  | none => simp
  | some value => cases value <;> simp [Value.int?, eq_comm]

end EcatDevice.Settings
