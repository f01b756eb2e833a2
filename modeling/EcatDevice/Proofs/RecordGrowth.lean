import EcatDevice.Proofs.Declarations
import EcatDevice.Proofs.Statements
import Mathlib

/-! # Records that grow

The fields of a record are numbered from left to right: a field has the subindex it asks for, or the
one behind the field before it. `lastNumber` counts so without an upper bound, and a record exists
just if no field is refused on the way. A declaration builds the record anew with each of its
fields, so that a field can refer to the ones before it. Nothing moves in between: the record of the
first fields is the front of the whole record, and a field stays where it was published.
-/

namespace EcatDevice

/-! ## Numbers of fields -/

namespace FieldSpec

/-- The number of a field behind the number `previous`. -/
def number (previous : Nat) (field : FieldSpec) : Nat :=
  match field.subindex with
  | some wanted => wanted.toNat
  | none => previous + 1

/-- The field asks for a subindex that is not above the one before, or takes the next one where
there is none. -/
def Refused (previous : Nat) (field : FieldSpec) : Prop :=
  match field.subindex with
  | some wanted => wanted.toNat ≤ previous
  | none => 255 < previous + 1

instance (previous : Nat) : (field : FieldSpec) → Decidable (field.Refused previous)
  | ⟨some _, _, _, _, _, _⟩ => inferInstanceAs (Decidable (_ ≤ _))
  | ⟨none, _, _, _, _, _⟩ => inferInstanceAs (Decidable (_ < _))

/-- The number of the last field, and zero, the place of the count, if there is none. -/
def lastNumber (fields : List FieldSpec) : Nat :=
  fields.foldl number 0

end FieldSpec

namespace Object

theorem fieldSubindex_ok_iff {symbol : String} {previous subindex : UInt8} {field : FieldSpec} :
    fieldSubindex symbol previous field = .ok subindex ↔
      ¬field.Refused previous.toNat ∧ subindex.toNat = field.number previous.toNat := by
  unfold fieldSubindex FieldSpec.Refused FieldSpec.number
  cases field.subindex with
  | some wanted =>
      simp only [UInt8.lt_iff_toNat_lt]
      split <;> simp_all [eq_comm, ← UInt8.toNat_inj]
  | none =>
      have bound := previous.toNat_lt
      simp only [UInt8.lt_iff_toNat_lt]
      split
      · next below =>
          simp at below
          simp [← UInt8.toNat_inj, UInt8.toNat_add]
          omega
      · next full =>
          simp at full ⊢
          omega

/-- Fields get sub-objects just if none of them is refused behind the others. -/
theorem fieldSubs_total_iff {index : UInt16} {symbol : String} {previous : UInt8}
    {fields : List FieldSpec} :
    (∃ subs, fieldSubs index symbol previous fields = .ok subs) ↔
      ∀ before field after, fields = before ++ field :: after →
        ¬field.Refused (before.foldl FieldSpec.number previous.toNat) := by
  induction fields generalizing previous with
  | nil => simp [fieldSubs]
  | cons first rest ih =>
      simp only [fieldSubs_cons]
      constructor
      · rintro ⟨_, subindex, others, here, later, -⟩ before field after split
        obtain ⟨fits, number⟩ := fieldSubindex_ok_iff.mp here
        cases before with
        | nil =>
            cases split
            exact fits
        | cons head before =>
            cases split
            have behind := ih.mp ⟨others, later⟩ before field after rfl
            rwa [number] at behind
      · intro fits
        have here := fits [] first rest rfl
        have small : first.number previous.toNat < 256 := by
          unfold FieldSpec.number
          unfold FieldSpec.Refused at here
          split at here
          · next wanted _ => exact wanted.toNat_lt
          · simp at here ⊢
            omega
        have number : (UInt8.ofNat (first.number previous.toNat)).toNat =
            first.number previous.toNat := UInt8.toNat_ofNat_of_lt' small
        obtain ⟨others, later⟩ := ih.mpr (fun before field after split => by
          have behind := fits (first :: before) field after (by simp [split])
          rwa [number])
        exact ⟨_, _, others, fieldSubindex_ok_iff.mpr ⟨here, number⟩, later, rfl⟩

theorem record_total_iff {index : UInt16} {symbol description : String}
    {fields : List FieldSpec} :
    (∃ o, record index symbol description fields = .ok o) ↔ fields.length ≤ 255 ∧
      ∀ before field after, fields = before ++ field :: after →
        ¬field.Refused (FieldSpec.lastNumber before) := by
  have each : (∃ subs, fieldSubs index symbol 0 fields = .ok subs) ↔ _ := fieldSubs_total_iff
  constructor
  · rintro ⟨o, made⟩
    obtain ⟨few, subs, built, -⟩ := record_ok made
    exact ⟨few, each.mp ⟨subs, built⟩⟩
  · rintro ⟨few, fits⟩
    obtain ⟨subs, built⟩ := each.mpr fits
    simp [record, Nat.not_lt.mpr few, built, bind, Except.bind, pure, Except.pure]

theorem record_error_iff {index : UInt16} {symbol description : String}
    {fields : List FieldSpec} :
    (∃ e, record index symbol description fields = .error e) ↔
      255 < fields.length ∨ ∃ before field after, fields = before ++ field :: after ∧
        field.Refused (FieldSpec.lastNumber before) := by
  have total : (∃ o, record index symbol description fields = .ok o) ↔ _ := record_total_iff
  constructor
  · rintro ⟨e, failed⟩
    by_contra none
    push Not at none
    obtain ⟨o, made⟩ := total.mpr none
    cases failed.symm.trans made
  · intro refused
    cases made : record index symbol description fields with
    | error e => exact ⟨e, rfl⟩
    | ok o =>
        obtain ⟨few, fits⟩ := total.mp ⟨o, made⟩
        obtain many | ⟨before, field, after, split, stuck⟩ := refused
        · omega
        · exact absurd stuck (fits before field after split)

/-! ## Fronts of records -/

theorem lastSubindex_eq {index : UInt16} {symbol : String} {previous : UInt8}
    {fields : List FieldSpec} {subs : List SubObject}
    (made : fieldSubs index symbol previous fields = .ok subs) :
    (lastSubindex previous subs).toNat = fields.foldl FieldSpec.number previous.toNat := by
  induction fields generalizing previous subs with
  | nil =>
      cases made
      rfl
  | cons field rest ih =>
      obtain ⟨subindex, others, first, later, rfl⟩ := fieldSubs_cons.mp made
      obtain ⟨-, number⟩ := fieldSubindex_ok_iff.mp first
      simp only [lastSubindex, fieldSub, List.foldl_cons, ← number]
      exact ih later

theorem getLast?_subindex (first : SubObject) (subs : List SubObject) :
    (first :: subs).getLast?.map SubObject.subindex =
      some (lastSubindex first.subindex subs) := by
  induction subs generalizing first with
  | nil => rfl
  | cons sub rest ih =>
      rw [List.getLast?_cons_cons]
      exact ih sub

theorem length_fieldSubs {index : UInt16} {symbol : String} {previous : UInt8}
    {fields : List FieldSpec} {subs : List SubObject}
    (made : fieldSubs index symbol previous fields = .ok subs) : subs.length = fields.length := by
  simpa using congrArg List.length (fieldSubs_spec made).content

theorem maxSubindex_eq {o : Object} (formed : o.WellFormed) {first : SubObject}
    {subs : List SubObject} (all : o.subs = first :: subs) :
    o.maxSubindex = lastSubindex first.subindex subs := by
  obtain ⟨last, found, same⟩ := Option.map_eq_some_iff.mp (getLast?_subindex first subs)
  obtain ⟨front, split⟩ := List.getLast?_eq_some_iff.mp found
  rw [maxSubindex_snoc formed (all.trans split), same]

section
variable {index : UInt16} {symbol description : String} {fields : List FieldSpec} {o : Object}
  (made : record index symbol description fields = .ok o) {k : Nat} (inside : k ≤ fields.length)
include made inside

theorem record_split :
    ∃ front rest, fieldSubs index symbol 0 (fields.take k) = .ok front ∧ front.length = k ∧
      o = { kind := .record, index, symbol, description,
            subs := countSub index fields.length :: (front ++ rest) } := by
  obtain ⟨-, subs, built, rfl⟩ := record_ok made
  rw [← List.take_append_drop k fields] at built
  obtain ⟨front, rest, before, -, rfl⟩ := fieldSubs_append built
  exact ⟨front, rest, before, by simp [length_fieldSubs before, inside], rfl⟩

/-- The record of the first fields is the front of the whole one, behind a count of its own. -/
theorem record_take :
    record index symbol description (fields.take k) =
      .ok { o with subs := countSub index k :: (o.subs.drop 1).take k } := by
  obtain ⟨few, -⟩ := record_ok made
  obtain ⟨front, rest, before, length, rfl⟩ := record_split made inside
  simp [record, before, length, inside, inside.trans few, bind, Except.bind, pure, Except.pure]

/-- The largest subindex in the record of the first fields is the one that the last of them has in
the whole record. -/
theorem maxSubindex_take {part : Object}
    (taken : record index symbol description (fields.take k) = .ok part) :
    o.subs[k]?.map SubObject.subindex = some part.maxSubindex ∧
      part.maxSubindex.toNat = FieldSpec.lastNumber (fields.take k) := by
  obtain ⟨front, rest, before, length, rfl⟩ := record_split made inside
  have formed := record_wellFormed taken
  obtain ⟨-, _, built, rfl⟩ := record_ok taken
  cases before.symm.trans built
  rw [maxSubindex_eq formed rfl]
  constructor
  · have last := getLast?_subindex (countSub index fields.length) front
    rw [List.getLast?_eq_getElem?] at last
    simp only [List.length_cons, length, Nat.add_sub_cancel] at last
    rw [← List.cons_append, List.getElem?_append_left (by simp [length])]
    exact last
  · exact lastSubindex_eq built

end

/-- The data of a record is still there when fields are added. -/
theorem mem_of_front {index : UInt16} {symbol description : String} {fields more : List FieldSpec}
    {o part : Object} (made : record index symbol description (fields ++ more) = .ok o)
    (front : record index symbol description fields = .ok part) {sub : SubObject}
    (member : sub ∈ part.subs) (data : 0 < sub.subindex) : sub ∈ o.subs := by
  have taken := record_take made (k := fields.length) (by simp)
  rw [List.take_left] at taken
  cases front.symm.trans taken
  rcases List.mem_cons.mp member with rfl | later
  -- The count is the only part that changes.
  · cases data
  · exact List.mem_of_mem_drop (List.mem_of_mem_take later)

/-- The last field of a record is at its largest subindex. -/
theorem mem_last {index : UInt16} {symbol description : String} {fields : List FieldSpec}
    {field : FieldSpec} {o : Object}
    (made : record index symbol description (fields ++ [field]) = .ok o) :
    fieldSub index field o.maxSubindex ∈ o.subs ∧ 0 < o.maxSubindex := by
  have before := record_take made (k := fields.length) (by simp)
  rw [List.take_left] at before
  obtain ⟨subs, subindex, -, all, positive⟩ := record_snoc before made
  rw [maxSubindex_snoc (record_wellFormed made) all]
  exact ⟨by simp [all, fieldSub], positive⟩

end Object

theorem Dictionary.get?_inserted {d next : Dictionary} {object : Object}
    (made : d.insert object = .ok next) : next.get? object.index = some object := by
  unfold insert at made
  split at made
  · cases made
  · next absent =>
      cases made
      simp only [get?, Option.not_isSome_iff_eq_none] at absent ⊢
      simp [List.find?_append, absent]

/-! ## Declarations -/

namespace Resolution

/-- The record of a declaration behind its first `k` fields. -/
def pendingAt (s : RecordDecl) (symbol description : String) (index : UInt16) (r : Resolution)
    (k : Nat) : Except Error Pending := do
  let object ← Object.record index symbol description []
  (s.fields.take k).foldlM (addField s.access symbol description index)
    { resolution := r.publish symbol (.object index), fields := [], object }

/-- A field is evaluated in sight of the fields before it, added to them, and published at the
largest subindex. -/
structure AddsField (s : RecordDecl) (symbol : String) (index : UInt16) (field : FieldDecl)
    (before after : Pending) (spec : FieldSpec) : Prop where
  fields : after.fields = before.fields ++ [spec]
  subindex : ∃ wanted, field.subindex.mapM ((before.resolution.scopeWith before.object).evalNat
      (symbol ++ "." ++ field.symbol ++ " subindex") 0xff) = .ok wanted ∧
    spec.subindex = wanted.map UInt8.ofNat
  access : spec.access = field.access ||| s.access
  basicType : BasicType.find field.typeName = .ok spec.basicType
  name : spec.symbol = field.symbol
  default : (before.resolution.scopeWith before.object).evalDefault field.default = .ok spec.default
  description : spec.description = field.description
  published : after.resolution = before.resolution.publish (symbol ++ "." ++ field.symbol)
    (.sub index after.object.maxSubindex)

section
variable {s : RecordDecl} {symbol description : String} {index : UInt16} {r : Resolution}

theorem pendingAt_kept {k : Nat} {p : Pending}
    (made : pendingAt s symbol description index r k = .ok p) :
    p.Kept index symbol description r.dictionary := by
  obtain ⟨object, record, made⟩ := Except.bind_eq_ok made
  exact addFields_kept ⟨rfl, record⟩ made

theorem pendingAt_succ {k : Nat} {field : FieldDecl} (found : s.fields[k]? = some field) :
    pendingAt s symbol description index r (k + 1) =
      pendingAt s symbol description index r k >>= fun p =>
        addField s.access symbol description index p field := by
  simp [pendingAt, List.take_add_one, found]

/-- The fields so far are a front of the fields later on. -/
theorem pendingAt_front {k j : Nat} (before : k ≤ j) {later : Pending}
    (made : pendingAt s symbol description index r j = .ok later) :
    ∃ p more, pendingAt s symbol description index r k = .ok p ∧
      later.fields = p.fields ++ more := by
  induction before generalizing later with
  | refl => exact ⟨later, [], made, by simp⟩
  | @step j _ ih =>
      cases found : s.fields[j]? with
      | none =>
          have all : s.fields.length ≤ j := List.getElem?_eq_none_iff.mp found
          apply ih
          rwa [pendingAt, List.take_of_length_le (by omega),
            ← List.take_of_length_le all, ← pendingAt] at made
      | some field =>
          rw [pendingAt_succ found] at made
          obtain ⟨q, earlier, added⟩ := Except.bind_eq_ok made
          obtain ⟨p, more, first, fields⟩ := ih earlier
          obtain ⟨_, _, _, _, -, -, -, -, longer, -, -⟩ := addField_ok added
          exact ⟨p, _, first, by rw [longer, fields, List.append_assoc]⟩

theorem pendingAt_adds {k : Nat} {field : FieldDecl} (found : s.fields[k]? = some field)
    {after : Pending} (made : pendingAt s symbol description index r (k + 1) = .ok after) :
    ∃ before spec, pendingAt s symbol description index r k = .ok before ∧
      AddsField s symbol index field before after spec := by
  rw [pendingAt_succ found] at made
  obtain ⟨before, earlier, added⟩ := Except.bind_eq_ok made
  obtain ⟨subindex, default, basicType, object, asked, evaluated, listed, -, fields, rfl,
    published⟩ := addField_ok added
  exact ⟨before, _, earlier, fields, ⟨subindex, asked, rfl⟩, rfl, listed, rfl, evaluated, rfl,
    published⟩

theorem recordObject_pending {next : Resolution}
    (made : recordObject s symbol description index r = .ok next) :
    ∃ (done : Pending) (annotated : Resolution) (properties : ValueMap),
      pendingAt s symbol description index r s.fields.length = .ok done ∧
      annotated.dictionary = r.dictionary ∧
      annotated.insert { done.object with properties } = .ok next := by
  obtain ⟨object, done, annotated, properties, record, fields, notes, inserted⟩ :=
    recordObject_ok made
  have whole : pendingAt s symbol description index r s.fields.length = .ok done := by
    simp [pendingAt, record, fields, bind, Except.bind]
  exact ⟨done, annotated, properties, whole,
    (annotate_dictionary notes).trans (pendingAt_kept whole).dictionary, inserted⟩

/-- The object of the declaration is the record behind the last field, with its annotations. -/
theorem recordObject_inserts {next : Resolution}
    (made : recordObject s symbol description index r = .ok next) :
    ∃ done properties, pendingAt s symbol description index r s.fields.length = .ok done ∧
      next.dictionary.objects = r.dictionary.objects ++ [{ done.object with properties }] ∧
      next.dictionary.get? index = some { done.object with properties } := by
  obtain ⟨done, annotated, properties, whole, same, inserted⟩ := recordObject_pending made
  have own := (Object.record_subs (pendingAt_kept whole).object).2.2.1
  obtain ⟨_, _, inserted⟩ := Except.bind_eq_ok inserted
  obtain ⟨dictionary, entered, inserted⟩ := Except.bind_eq_ok inserted
  cases inserted
  refine ⟨done, properties, whole, ?_, ?_⟩
  · rw [(Dictionary.insert_ok entered).1, same]
  · have present := Dictionary.get?_inserted entered
    simpa only [own] using present

/-- A field that was added is at its place in every later state of the record. -/
theorem pendingAt_sub? {k j : Nat} (later : k < j) {field : FieldDecl} {before after p : Pending}
    {spec : FieldSpec} (reached : pendingAt s symbol description index r (k + 1) = .ok after)
    (adds : AddsField s symbol index field before after spec)
    (given : pendingAt s symbol description index r j = .ok p) :
    p.object.index = index ∧ p.object.sub? after.object.maxSubindex =
      some (Object.fieldSub index spec after.object.maxSubindex) := by
  obtain ⟨_, more, same, fields⟩ := pendingAt_front later given
  cases reached.symm.trans same
  have record := (pendingAt_kept reached).object
  rw [adds.fields] at record
  obtain ⟨member, positive⟩ := Object.mem_last record
  have longer := (pendingAt_kept given).object
  have formed := Object.record_wellFormed longer
  have own := (Object.record_subs longer).2.2.1
  rw [fields, adds.fields] at longer
  exact ⟨own, formed.sub?_of_mem (Object.mem_of_front longer record member positive)⟩

end

end Resolution

/-- A record fails to be built if it has too many fields or one of them is refused, and not
otherwise. The record of the first fields is the front of the whole record behind a count of its
own, and its largest subindex is the one of the last of these fields. So each field that a
declaration publishes while the record grows is the one that is found there ever after. -/
theorem record_grows (index : UInt16) (symbol description : String) (fields : List FieldSpec) :
    ((∃ e, Object.record index symbol description fields = .error e) ↔
      255 < fields.length ∨ ∃ before field after, fields = before ++ field :: after ∧
        field.Refused (FieldSpec.lastNumber before)) ∧
    (∀ o, Object.record index symbol description fields = .ok o → ∀ k ≤ fields.length,
      ∃ part, Object.record index symbol description (fields.take k) = .ok part ∧
        part = { o with subs := Object.countSub index k :: (o.subs.drop 1).take k } ∧
        o.subs[k]?.map SubObject.subindex = some part.maxSubindex ∧
        part.maxSubindex.toNat = FieldSpec.lastNumber (fields.take k)) ∧
    ∀ (s : RecordDecl) (r next : Resolution),
      Resolution.recordObject s symbol description index r = .ok next →
      ∃ object, next.dictionary.objects = r.dictionary.objects ++ [object] ∧
        next.dictionary.get? index = some object ∧
        ∀ (k : Nat) (field : FieldDecl), s.fields[k]? = some field →
          ∃ before after spec,
            Resolution.pendingAt s symbol description index r k = .ok before ∧
            Resolution.pendingAt s symbol description index r (k + 1) = .ok after ∧
            Resolution.AddsField s symbol index field before after spec ∧
            (∀ j p, k < j → Resolution.pendingAt s symbol description index r j = .ok p →
              (Entity.sub index after.object.maxSubindex).sub?
                (p.resolution.scopeWith p.object).find =
                  some (Object.fieldSub index spec after.object.maxSubindex)) ∧
            object.sub? after.object.maxSubindex =
              some (Object.fieldSub index spec after.object.maxSubindex) := by
  refine ⟨Object.record_error_iff, ?_, ?_⟩
  · intro o made k inside
    have taken := Object.record_take made inside
    exact ⟨_, taken, rfl, Object.maxSubindex_take made inside taken⟩
  · intro s r next made
    obtain ⟨done, properties, whole, objects, present⟩ := Resolution.recordObject_inserts made
    refine ⟨_, objects, present, ?_⟩
    intro k field found
    have inside : k + 1 ≤ s.fields.length := (List.getElem?_eq_some_iff.mp found).1
    obtain ⟨after, -, reached, -⟩ := Resolution.pendingAt_front inside whole
    obtain ⟨before, spec, earlier, adds⟩ := Resolution.pendingAt_adds found reached
    refine ⟨before, after, spec, earlier, reached, adds, ?_, ?_⟩
    · intro j p later given
      obtain ⟨own, place⟩ := Resolution.pendingAt_sub? later reached adds given
      simp [Entity.sub?, Resolution.scopeWith, own, place]
    · exact (Resolution.pendingAt_sub? inside reached adds whole).2

/-- A field of sixteen bits that is readable. -/
def growingField (symbol : String) (subindex : Option UInt8) (default : Int64) : FieldSpec :=
  { subindex, access := Access.read, basicType := BasicType.plain "UINT" 16 "UNSIGNED16" 6
      "uint16_t " (.unsigned 2), symbol, default := .int default, description := none }

/-- A gap in front, the next subindex, and the last one there is. -/
def growingFields : List FieldSpec :=
  [growingField "level" (some 5) 7, growingField "copy" none 7, growingField "mode" (some 255) 0]

/-- A record with these fields; the second one has the value of the first. -/
def growingDecl : RecordDecl :=
  { place := ⟨1, 1⟩, access := Access.read, symbol := "in", instances := [],
    index := some (.literal (.int 0x6000)), description := none, properties := [],
    fields := [
      { place := ⟨2, 1⟩, typeName := "UINT", access := Access.empty, symbol := "level",
        subindex := some (.literal (.int 5)), default := some (.literal (.int 7)),
        description := none },
      { place := ⟨3, 1⟩, typeName := "UINT", access := Access.empty, symbol := "copy",
        subindex := none, default := some (.symbol .default "in.level"), description := none },
      { place := ⟨4, 1⟩, typeName := "UINT", access := Access.empty, symbol := "mode",
        subindex := some (.literal (.int 255)), default := none, description := none }] }

theorem record_grows_gaps :
    (∃ o part, Object.record 0x6000 "in" "Inputs" growingFields = .ok o ∧
      Object.record 0x6000 "in" "Inputs" (growingFields.take 2) = .ok part ∧
      part.maxSubindex.toNat = 6 ∧ o.subs[2]?.map SubObject.subindex = some part.maxSubindex ∧
      part.subs.drop 1 = (o.subs.drop 1).take 2) ∧
    (∃ e, Object.record 0x6000 "in" "Inputs" (growingFields ++ [growingField "state" none 0]) =
      .error e) ∧
    ∃ next object spec,
      Resolution.recordObject growingDecl "in" "Inputs" 0x6000 { engine := .plain } = .ok next ∧
      next.dictionary.get? 0x6000 = some object ∧ spec.symbol = "copy" ∧
      object.sub? 6 = some (Object.fieldSub 0x6000 spec 6) := by
  refine ⟨?_, ?_, ?_⟩
  · obtain ⟨o, made⟩ : ∃ o, Object.record 0x6000 "in" "Inputs" growingFields = .ok o := ⟨_, rfl⟩
    obtain ⟨part, taken, rfl, place, number⟩ := (record_grows _ _ _ _).2.1 o made 2 (by decide)
    exact ⟨o, _, made, taken, number, place, rfl⟩
  · have refused : (growingField "state" none 0).Refused
        (FieldSpec.lastNumber growingFields) := by decide
    exact (record_grows _ _ _ _).1.mpr (.inr ⟨growingFields, _, [], rfl, refused⟩)
  · have declared : (Resolution.recordObject growingDecl "in" "Inputs" 0x6000
        { engine := .plain }).toOption.map (fun next => next.dictionary.objects.length) =
        some 1 := by
      decide +kernel
    have largest : (Resolution.pendingAt growingDecl "in" "Inputs" 0x6000
        { engine := .plain } 2).toOption.map (fun p => p.object.maxSubindex) = some 6 := by
      decide +kernel
    obtain ⟨next, made, -⟩ := Except.exists_ok_of_shown declared
    obtain ⟨p, reached, six⟩ := Except.exists_ok_of_shown largest
    obtain ⟨object, -, present, each⟩ :=
      (record_grows _ _ _ []).2.2 growingDecl { engine := .plain } next made
    obtain ⟨before, after, spec, -, same, adds, -, place⟩ := each 1 _ rfl
    cases reached.symm.trans same
    rw [six] at place
    exact ⟨next, object, spec, made, present, adds.name, place⟩

end EcatDevice
