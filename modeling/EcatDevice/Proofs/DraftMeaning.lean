import EcatDevice.Proofs.Printing
import Mathlib.Data.List.Forall2

/-! # Meaning of drafts

When a draft stands for a part of a syntax tree: checking it gives that part, wherever in a text it
was read and up to places.
-/

namespace EcatDevice

open Source

/-- A draft of the operand. -/
def Expr.ReadAs (e : Expr) (draft : DraftExpr) : Prop :=
  ∀ source, draft.check source = .ok e

/-- A clause that stands for the attribute. -/
def Attribute.ReadAs : Attribute → Clause → Prop
  | .index e, .index draft => e.ReadAs draft
  | .description text, .description read => read = text
  | .property p, .property key draft => key = p.key ∧ p.value.ReadAs draft
  | .default e, .default draft => e.ReadAs draft
  | _, _ => False

/-- A clause that stands for an initializer list; an empty one may be left out. -/
def ListReadAs (values : List Expr) (read : Option Clause) : Prop :=
  (read = none ∧ values = []) ∨
    ∃ drafts, read = some (.values drafts) ∧ List.Forall₂ Expr.ReadAs values drafts

def Instance.ReadAs (i : Instance) (draft : DraftExpr × String) : Prop :=
  i.index.ReadAs draft.1 ∧ draft.2 = i.description

def FieldDecl.ReadAs (d : FieldDecl) (draft : DraftField) : Prop :=
  ∀ source, ∃ read, draft.check source = .ok read ∧ read.unplaced = d.unplaced

def Statement.ReadAs (s : Statement) (draft : Draft) : Prop :=
  ∀ source, ∃ read, draft.check source = .ok read ∧ read.unplaced = s.unplaced

/-- Checks that succeed one by one succeed in a row. -/
theorem mapM_ok_of_forall₂ {ε α β γ : Type} {check : α → Except ε β} (view : β → γ)
    {views : List γ} {items : List α}
    (each : List.Forall₂ (fun c a => ∃ b, check a = .ok b ∧ view b = c) views items) :
    ∃ read, items.mapM check = .ok read ∧ read.map view = views := by
  induction each with
  | nil => exact ⟨[], rfl, rfl⟩
  | cons first _ ih =>
      obtain ⟨b, checked, rfl⟩ := first
      obtain ⟨read, rest, rfl⟩ := ih
      refine ⟨b :: read, ?_, rfl⟩
      rw [List.mapM_cons, checked, rest]
      rfl

theorem mapM_check {values : List Expr} {drafts : List DraftExpr}
    (read : List.Forall₂ Expr.ReadAs values drafts) (source : List Char) :
    drafts.mapM (·.check source) = .ok values := by
  obtain ⟨all, checked, same⟩ := mapM_ok_of_forall₂ id
    (read.imp fun e draft standsFor => ⟨e, standsFor source, rfl⟩)
  rw [checked, ← same, List.map_id]

theorem optionMapM_check {value : Option Expr} {draft : Option DraftExpr}
    (read : Option.Rel Expr.ReadAs value draft) (source : List Char) :
    draft.mapM (·.check source) = .ok value := by
  cases read with
  | none => rfl
  | some read =>
      rw [Option.mapM_some, read source]
      rfl

theorem mapM_instances {instances : List Instance} {drafts : List (DraftExpr × String)}
    (read : List.Forall₂ Instance.ReadAs instances drafts) (source : List Char) :
    (drafts.mapM fun (index, description) => do
      return ({ index := ← index.check source, description } : Instance)) = .ok instances := by
  induction read with
  | nil => rfl
  | @cons i draft _ _ first _ ih =>
      have checked : draft.1.check source = .ok i.index := first.1 source
      simp only [List.mapM_cons, ih, checked, first.2]
      rfl

/-! ## Clauses -/

namespace Source.Clauses

/-- Fills the place of an attribute, if it is free. -/
def put? (clauses : Clauses) : Attribute → Option Clauses
  | .index e => if clauses.index.isNone then some { clauses with index := some e } else none
  | .default e => if clauses.default.isNone then some { clauses with default := some e } else none
  | .description text =>
    if clauses.description.isNone then some { clauses with description := some text } else none
  | .property p => some { clauses with properties := clauses.properties ++ [p] }

theorem once_free {α : Type} (place : Location) (what : String) (a : α) {slot : Option α}
    (free : slot.isNone = true) : once place what slot a = .ok (some a) := by
  rw [Option.isNone_iff_eq_none.mp free, once]

section Collecting

variable (source : List Char) (place : Location) (what : String)

theorem add_of_put? {clauses filled : Clauses} {a : Attribute} {clause : Clause}
    (read : a.ReadAs clause) (puts : clauses.put? a = some filled) :
    add source place what clauses clause = .ok filled := by
  cases a <;> cases clause <;> try exact read.elim
  case index.index e draft =>
    obtain ⟨free, same⟩ := Option.ite_none_right_eq_some.mp puts
    cases same
    have checked : draft.check source = .ok e := read source
    simp only [add, checked, once_free _ _ _ free]
    rfl
  case default.default e draft =>
    obtain ⟨free, same⟩ := Option.ite_none_right_eq_some.mp puts
    cases same
    have checked : draft.check source = .ok e := read source
    simp only [add, checked, once_free _ _ _ free]
    rfl
  case description.description text written =>
    obtain ⟨free, same⟩ := Option.ite_none_right_eq_some.mp puts
    cases same
    cases read
    simp only [add, once_free _ _ _ free]
    rfl
  case property.property p key draft =>
    cases puts
    obtain ⟨rfl, read⟩ := read
    have checked : draft.check source = .ok p.value := read source
    simp only [add, checked]
    rfl

theorem foldlM_of_put? {clauses filled : Clauses} {attributes : List Attribute}
    {drafts : List Clause} (read : List.Forall₂ Attribute.ReadAs attributes drafts)
    (puts : attributes.foldlM put? clauses = some filled) :
    drafts.foldlM (add source place what) clauses = .ok filled := by
  induction read generalizing clauses with
  | nil =>
      cases puts
      rfl
  | cons first _ ih =>
      obtain ⟨middle, putsFirst, putsRest⟩ := Option.bind_eq_some_iff.mp puts
      rw [List.foldlM_cons, add_of_put? source place what first putsFirst]
      exact ih putsRest

theorem put?_properties (clauses : Clauses) (properties : List Property) :
    (properties.map Attribute.property).foldlM put? clauses =
      some { clauses with properties := clauses.properties ++ properties } := by
  induction properties generalizing clauses with
  | nil => simp
  | cons p properties ih =>
      rw [List.map_cons, List.foldlM_cons, put?]
      exact (ih _).trans (by simp)

theorem put?_objectAttributes (index : Option Expr) (description : Option String)
    (properties : List Property) :
    (objectAttributes index description properties).foldlM put? {} =
      some { index, description, properties } := by
  cases index <;> cases description <;>
    simp [objectAttributes, put?, put?_properties]

theorem put?_declaration (index : Option Expr) (description : Option String)
    (properties : List Property) (default : Option Expr) :
    (objectAttributes index description properties
      ++ default.toList.map Attribute.default).foldlM put? {} =
      some { index, description, properties, default } := by
  rw [List.foldlM_append, put?_objectAttributes]
  cases default <;> simp [put?]

end Collecting

end Source.Clauses

/-! ## Declarations -/

theorem FieldDecl.readAs_of_clauses {d : FieldDecl} {clauses : List Clause}
    (read : List.Forall₂ Attribute.ReadAs d.attributes clauses) (left : Nat) :
    d.ReadAs { left, typeName := d.typeName, access := d.access, symbol := d.symbol, clauses } := by
  intro source
  have collected := Clauses.foldlM_of_put? source (placeOf source left) "subindex" read
    (Clauses.put?_declaration d.subindex d.description [] d.default)
  refine ⟨{ d with place := placeOf source left }, ?_, rfl⟩
  simp only [DraftField.check, Clauses.collect, collected]
  rfl

namespace Statement

theorem variable_readAs {d : VariableDecl} {clauses : List Clause}
    (read : List.Forall₂ Attribute.ReadAs (objectAttributes d.index d.description d.properties
      ++ d.default.toList.map Attribute.default) clauses) (left : Nat) :
    (Statement.variable d).ReadAs (.variable left d.typeName d.access d.symbol clauses) := by
  intro source
  have collected := Clauses.foldlM_of_put? source (placeOf source left) "index" read
    (Clauses.put?_declaration d.index d.description d.properties d.default)
  refine ⟨.variable { d with place := placeOf source left }, ?_, rfl⟩
  simp only [Draft.check, Clauses.collect, collected]
  rfl

theorem array_readAs {d : ArrayDecl} {size : Option DraftExpr} {clauses : List Clause}
    {values : Option Clause}
    (readSize : Option.Rel Expr.ReadAs d.size size)
    (read : List.Forall₂ Attribute.ReadAs
      (objectAttributes d.index d.description d.properties) clauses)
    (readValues : ListReadAs d.values values) (left : Nat) :
    (Statement.array d).ReadAs
      (.array left d.typeName d.access d.symbol size (clauses ++ values.toList ++ [])) := by
  intro source
  have collected := Clauses.foldlM_of_put? source (placeOf source left) "index" read
    (Clauses.put?_objectAttributes d.index d.description d.properties)
  refine ⟨.array { d with place := placeOf source left }, ?_, rfl⟩
  have all : Clauses.collect source (placeOf source left) "index"
      (clauses ++ values.toList ++ []) = .ok {
        index := d.index, description := d.description, properties := d.properties,
        values := d.values } := by
    rw [Clauses.collect, List.append_nil, List.foldlM_append, collected]
    rcases readValues with ⟨rfl, none⟩ | ⟨drafts, rfl, readValues⟩
    · rw [none]
      rfl
    · simp only [Option.toList_some, List.foldlM_cons, Clauses.add, mapM_check readValues source]
      rfl
  simp only [Draft.check, optionMapM_check readSize, all]
  rfl

theorem record_readAs {d : RecordDecl} {instances : List (DraftExpr × String)}
    {clauses : List Clause} {fields : List DraftField}
    (readInstances : List.Forall₂ Instance.ReadAs d.instances instances)
    (read : List.Forall₂ Attribute.ReadAs
      (objectAttributes d.index d.description d.properties) clauses)
    (readFields : List.Forall₂ FieldDecl.ReadAs d.fields fields) (left : Nat) :
    (Statement.record d).ReadAs (.record left d.access d.symbol instances clauses fields) := by
  intro source
  have collected := Clauses.foldlM_of_put? source (placeOf source left) "index" read
    (Clauses.put?_objectAttributes d.index d.description d.properties)
  obtain ⟨fields', checkedFields, sameFields⟩ := mapM_ok_of_forall₂ FieldDecl.unplaced
    (List.forall₂_map_left_iff.mpr (readFields.imp fun _ _ read => read source))
  refine ⟨.record { d with place := placeOf source left, fields := fields' }, ?_, ?_⟩
  · simp only [Draft.check, Clauses.collect, mapM_instances readInstances source, collected,
      checkedFields]
    rfl
  · simp only [Statement.unplaced, sameFields]

theorem assign_readAs {d : Assignment} {draft : DraftExpr} (read : d.value.ReadAs draft)
    (left : Nat) : (Statement.assign d).ReadAs (.assign left d.symbol draft) := by
  intro source
  refine ⟨.assign { d with place := placeOf source left }, ?_, rfl⟩
  rw [Draft.check, read source]
  rfl

end Statement

end EcatDevice
