import EcatDevice.Proofs.Declarations
import EcatDevice.Proofs.SettingsLookup
import Mathlib

/-! # Names of a compiled program

Every name of a compiled program stands for a plain value, for the object that has it as its symbol,
or for the field of a record that it qualifies; no two names stand for one object or one sub-object.
The settings hold the value of every name that has one, and nothing else.
-/

namespace EcatDevice

namespace Resolution

/-- Every name is a plain value or one that an object of the dictionary gives. -/
def Named (r : Resolution) : Prop :=
  ∀ name e, r.symbols[name]? = some e → e.IsLiteral ∨ ∃ o ∈ r.dictionary.objects, o.Names name e

theorem Act.named {r next : Resolution} (act : Act r next) (named : r.Named) : next.Named := by
  intro name e found
  cases act with
  | note same grows =>
      rw [same]
      rcases grows name e found with earlier | literal
      · exact named name e earlier
      · exact Or.inl literal
  | declare object declares =>
      have stable := fun o : Object => o.names_unmarked name e
      rw [← Dictionary.exists_unmarked stable, declares.objects]
      rcases declares.symbols name e found with earlier | literal | own
      · refine (named name e earlier).imp_right fun given => ?_
        obtain ⟨o, member, names⟩ := (Dictionary.exists_unmarked stable _).mpr given
        exact ⟨o, List.mem_append_left _ member, names⟩
      · exact Or.inl literal
      · exact Or.inr ⟨object.unmarked, List.mem_append_right _ List.mem_cons_self,
          (stable object).mpr own⟩

theorem steps_named {engine : Regex.Engine} {statements : List Statement} {r : Resolution}
    (made : statements.foldlM step { engine } = .ok r) : r.Named := by
  refine steps_keep ?_ (fun _ _ => Act.named) made
  intro name e found
  rw [Std.ExtTreeMap.getElem?_empty] at found
  cases found

theorem steps_wellFormed {engine : Regex.Engine} {statements : List Statement} {r : Resolution}
    (made : statements.foldlM step { engine } = .ok r) : r.dictionary.WellFormed :=
  (steps_changes made).accepted_wellFormed ⟨List.nodup_nil, List.forall_mem_nil _⟩

/-- The setting that comes from an entry of the symbol table. -/
def setting? (r : Resolution) (entry : String × Entity) : Option (String × Value) :=
  match entry.2.defaultOf r.dictionary.get? entry.1 with
  | .ok value => some (entry.1, value)
  | .error _ => none

theorem setting?_eq_some {r : Resolution} {name key : String} {e : Entity} {value : Value} :
    r.setting? (name, e) = some (key, value) ↔
      name = key ∧ e.defaultOf r.dictionary.get? name = .ok value := by
  unfold setting?
  split
  · next same => simp only [Option.some.injEq, Prod.mk.injEq, same, Except.ok.injEq]
  · next same => simp only [reduceCtorEq, same, and_false]

/-- The settings have the default values of the names. -/
theorem settings_get? (r : Resolution) {name : String} {value : Value} :
    r.settings.get? name = some value ↔
      ∃ e, r.symbols[name]? = some e ∧ e.defaultOf r.dictionary.get? name = .ok value := by
  have distinct : (r.symbols.toList.filterMap r.setting?).Pairwise fun a b => a.1 ≠ b.1 := by
    refine List.Pairwise.filterMap _ ?_ Std.ExtTreeMap.distinct_keys_toList
    intro entry other apart setting has otherSetting hasOther same
    rw [(setting?_eq_some.mp has).1, (setting?_eq_some.mp hasOther).1, same] at apart
    exact apart (Std.LawfulEqCmp.compare_eq_iff_eq.mpr rfl)
  change (Settings.ofList (r.symbols.toList.filterMap r.setting?)).get? name = some value ↔ _
  rw [Settings.get?_ofList distinct, List.mem_filterMap]
  simp only [Prod.exists, Std.ExtTreeMap.mem_toList_iff_getElem?_eq_some, setting?_eq_some]
  constructor
  · rintro ⟨key, e, found, rfl, default⟩
    exact ⟨e, found, default⟩
  · rintro ⟨e, found, default⟩
    exact ⟨name, e, found, rfl, default⟩

end Resolution

/-! ## Entities -/

/-- What the entry of a name says about the objects and the settings of a device. -/
def Entity.Refers (device : Device) (name : String) : Entity → Prop
  | .literal value => device.settings.get? name = some value
  | .sub index subindex =>
    1 ≤ subindex ∧ ∃ o sub, device.dictionary.get? index = some o ∧ o.kind = .record ∧
      o.sub? subindex = some sub ∧ name = o.symbol ++ "." ++ sub.symbol ∧
      device.settings.get? name = some sub.default
  | .object index =>
    ∃ o, device.dictionary.get? index = some o ∧ o.symbol = name ∧
      (o.kind = .variable →
        ∃ sub, o.sub? 0 = some sub ∧ device.settings.get? name = some sub.default) ∧
      (o.kind ≠ .variable → device.settings.get? name = none)

theorem Entity.not_isLiteral_of_sub? (e : Entity) {find : Finder} {sub : SubObject}
    (denotes : e.sub? find = some sub) : ¬e.IsLiteral := by
  intro literal
  cases e with
  | object index => cases literal
  | sub index subindex => cases literal
  | literal value => cases denotes

theorem Object.WellFormed.sub?_zero {o : Object} (formed : o.WellFormed)
    (kind : o.kind = .variable) : ∃ sub, o.sub? 0 = some sub := by
  have shape := formed.shape
  rw [kind] at shape
  obtain ⟨sub, rest, subs, first, -⟩ := List.map_eq_cons_iff.mp shape
  have member : sub ∈ o.subs := by
    rw [subs]
    exact List.mem_cons_self
  exact ⟨sub, first ▸ formed.sub?_of_mem member⟩

section
variable {d : Dictionary} (formed : d.WellFormed) {name other : String} {e : Entity}
include formed

/-- A name that an object gives tells all about its value. -/
theorem Entity.refers_of_named {settings : Settings}
    (values : ∀ value, settings.get? name = some value ↔ e.defaultOf d.get? name = .ok value)
    (named : e.IsLiteral ∨ ∃ o ∈ d.objects, o.Names name e) :
    e.Refers { dictionary := d, settings } name := by
  cases e with
  | literal value => exact (values value).mpr rfl
  | sub index subindex =>
      obtain literal | ⟨o, member, rfl, kind, positive, sub, field, rfl, same⟩ := named
      · cases literal
      have object := Dictionary.get?_of_mem formed.distinct member
      have found := (formed.objects o member).sub?_of_mem field
      refine ⟨?_, o, sub, object, kind, found, same.symm, (values _).mpr ?_⟩
      · exact UInt8.le_iff_toNat_le.mpr (UInt8.lt_iff_toNat_lt.mp positive)
      · simp only [Entity.defaultOf, Entity.sub?, object, found, Option.bind_eq_bind,
          Option.bind_some]
  | object index =>
      obtain literal | ⟨o, member, rfl, symbol⟩ := named
      · cases literal
      have object := Dictionary.get?_of_mem formed.distinct member
      refine ⟨o, object, symbol, ?_, ?_⟩
      · intro kind
        obtain ⟨sub, found⟩ := (formed.objects o member).sub?_zero kind
        refine ⟨sub, found, (values _).mpr ?_⟩
        simp [Entity.defaultOf, Entity.sub?, object, found, Object.isVariable, kind]
      · intro kind
        cases value : settings.get? name with
        | none => rfl
        | some value =>
            have default := (values _).mp value
            simp [Entity.defaultOf, Entity.sub?, object, Object.isVariable, kind] at default

theorem Object.Names.unique {o twin : Object} (member : o ∈ d.objects) (names : o.Names name e)
    (memberTwin : twin ∈ d.objects) (namesTwin : twin.Names other e) : name = other := by
  have same : o.index = twin.index → o = twin := by
    intro index
    have found := Dictionary.get?_of_mem formed.distinct member
    rw [index, Dictionary.get?_of_mem formed.distinct memberTwin] at found
    exact (Option.some.inj found).symm
  cases e with
  | object index =>
      cases same (names.1.trans namesTwin.1.symm)
      exact names.2.symm.trans namesTwin.2
  | sub index subindex =>
      cases same (names.1.trans namesTwin.1.symm)
      obtain ⟨-, -, -, sub, field, place, qualified⟩ := names
      obtain ⟨-, -, -, subTwin, fieldTwin, placeTwin, qualifiedTwin⟩ := namesTwin
      have found := (formed.objects o member).sub?_of_mem field
      rw [place, ← placeTwin, (formed.objects o member).sub?_of_mem fieldTwin] at found
      cases found
      exact qualified.symm.trans qualifiedTwin
  | literal value => cases names

/-- The place of a sub-object tells which entity stands for it. -/
theorem Object.Names.eq_of_sub? {o : Object} (names : o.Names name e) {sub : SubObject}
    (found : e.sub? d.get? = some sub) :
    e = if sub.subindex = 0 then .object sub.index else .sub sub.index sub.subindex := by
  cases e with
  | literal value => cases found
  | object index =>
      obtain ⟨o, object, found⟩ := Option.bind_eq_some_iff.mp found
      split at found
      · obtain ⟨member, place⟩ := Object.mem_of_sub? found
        obtain ⟨present, own⟩ := Dictionary.mem_of_get? object
        rw [if_pos place, (formed.objects o present).home sub member, own]
      · cases found
  | sub index subindex =>
      obtain ⟨-, -, positive, -⟩ := names
      obtain ⟨o, object, found⟩ := Option.bind_eq_some_iff.mp found
      obtain ⟨member, place⟩ := Object.mem_of_sub? found
      obtain ⟨present, own⟩ := Dictionary.mem_of_get? object
      rw [place, (formed.objects o present).home sub member, own, if_neg]
      rintro rfl
      cases positive

end

/-! ## Programs -/

/-- Names refer to what is there, to nothing twice, and the settings are the values of names. -/
theorem compile_symbols_refer {engine : Regex.Engine} {source : String} {c : Compiled}
    (made : compile engine source = .ok c) :
    (∀ (name : String) (e : Entity), c.symbols[name]? = some e → e.Refers c.device name) ∧
    (∀ name : String, c.symbols[name]? = none → c.device.settings.get? name = none) ∧
    (∀ (name other : String) (e : Entity), c.symbols[name]? = some e → c.symbols[other]? = some e →
      ¬e.IsLiteral → name = other) ∧
    (∀ (name other : String) (e f : Entity) (sub twin : SubObject),
      c.symbols[name]? = some e → c.symbols[other]? = some f →
      e.sub? c.device.dictionary.get? = some sub → f.sub? c.device.dictionary.get? = some twin →
      sub.index = twin.index → sub.subindex = twin.subindex → name = other) := by
  obtain ⟨statements, _, made⟩ := Except.bind_eq_ok made
  obtain ⟨r, steps, made⟩ := Except.bind_eq_ok made
  cases made
  have named := Resolution.steps_named steps
  have formed := Resolution.steps_wellFormed steps
  have unique : ∀ (name other : String) (e : Entity), r.symbols[name]? = some e →
      r.symbols[other]? = some e → ¬e.IsLiteral → name = other := by
    intro name other e found foundOther entity
    obtain ⟨o, member, names⟩ := (named name e found).resolve_left entity
    obtain ⟨twin, memberTwin, namesTwin⟩ := (named other e foundOther).resolve_left entity
    exact names.unique formed member memberTwin namesTwin
  refine ⟨?_, ?_, unique, ?_⟩
  · intro name e found
    refine Entity.refers_of_named formed ?_ (named name e found)
    intro value
    rw [r.settings_get?, found]
    simp only [Option.some.injEq, exists_eq_left']
  · intro name absent
    refine Option.eq_none_iff_forall_ne_some.mpr fun value present => ?_
    obtain ⟨e, found, -⟩ := r.settings_get?.mp present
    rw [absent] at found
    cases found
  · intro name other e f sub twin found foundOther denotes denotesOther index subindex
    have entity := e.not_isLiteral_of_sub? denotes
    obtain ⟨_, -, names⟩ := (named name e found).resolve_left entity
    obtain ⟨_, -, namesOther⟩ :=
      (named other f foundOther).resolve_left (f.not_isLiteral_of_sub? denotesOther)
    -- A variable and a field cannot share a place: the one is at subindex 0, the other behind it.
    have same : e = f := by
      rw [names.eq_of_sub? formed denotes, namesOther.eq_of_sub? formed denotesOther, index,
        subindex]
    exact unique name other e found (same ▸ foundOther) entity

/-- The name of a record becomes a plain value, and its fields keep their names. -/
def renamedSource : String :=
  "UINT gain @0x2000 = 3; record in @0x6000 { UINT level @5 = gain; USINT mode; }; in = 4;"

def renamedStatements : List Statement := [
  .variable {
    place := ⟨1, 1⟩, typeName := "UINT", access := Access.empty, symbol := "gain",
    index := some (.literal (.int 0x2000)), default := some (.literal (.int 3)),
    description := none, properties := [] },
  .record {
    place := ⟨1, 24⟩, access := Access.empty, symbol := "in", instances := [],
    index := some (.literal (.int 0x6000)), description := none, properties := [],
    fields := [
      { place := ⟨1, 44⟩, typeName := "UINT", access := Access.empty, symbol := "level",
        subindex := some (.literal (.int 5)), default := some (.symbol .default "gain"),
        description := none },
      { place := ⟨1, 66⟩, typeName := "USINT", access := Access.empty, symbol := "mode",
        subindex := none, default := none, description := none }] },
  .assign { place := ⟨1, 81⟩, symbol := "in", value := .literal (.int 4) }]

theorem parse_renamed : Source.parse renamedSource = .ok renamedStatements := by
  cbv

theorem compile_symbols_refer_renamed :
    ∃ c, compile .plain renamedSource = .ok c ∧
      (Entity.object 0x2000).Refers c.device "gain" ∧
      (Entity.literal (.int 4)).Refers c.device "in" ∧
      (Entity.sub 0x6000 6).Refers c.device "in.mode" ∧
      c.symbols["in.depth"]? = none ∧ c.device.settings.get? "in.depth" = none := by
  have entries : (resolve .plain renamedStatements).toOption.map (fun c =>
      (c.symbols["gain"]?, c.symbols["in"]?, c.symbols["in.mode"]?, c.symbols["in.depth"]?)) =
      some (some (.object 0x2000), some (.literal (.int 4)), some (.sub 0x6000 6), none) := by
    decide +kernel
  have same : compile .plain renamedSource = resolve .plain renamedStatements := by
    rw [compile, parse_renamed]
    rfl
  obtain ⟨c, made, entries⟩ := Except.exists_ok_of_shown entries
  rw [made] at same
  simp only [Prod.mk.injEq] at entries
  obtain ⟨gain, plain, mode, depth⟩ := entries
  obtain ⟨refers, absent, -⟩ := compile_symbols_refer same
  exact ⟨c, same, refers _ _ gain, refers _ _ plain, refers _ _ mode, depth, absent _ depth⟩

end EcatDevice
