import EcatDevice.Proofs.Declarations
import EcatDevice.Proofs.Statements
import Mathlib

/-! # Names before their use

The names of a program are known without running it: `Statement.names` lists what a statement
declares, and `Statement.uses` pairs each expression with the names that are declared before it is
evaluated. Whenever a program is accepted, its symbol table holds these names and no others, and
every operand is among the names of its expression.
-/

namespace EcatDevice

/-! ## Names and uses of a syntax tree -/

/-- An expression with the names that are declared before it. -/
structure Use where
  expr : Expr
  names : List String
  deriving DecidableEq, Repr

def usesAt (names : List String) (exprs : List Expr) : List Use :=
  exprs.map fun expr => { expr, names }

def propertyNames (symbol : String) (properties : List Property) : List String :=
  properties.map fun property => symbol ++ "." ++ property.key

/-- A property sees the properties before it. -/
def propertyUses (symbol : String) : List String → List Property → List Use
  | _, [] => []
  | names, property :: rest =>
    { expr := property.value, names } ::
      propertyUses symbol (names ++ [symbol ++ "." ++ property.key]) rest

def fieldNames (symbol : String) (fields : List FieldDecl) : List String :=
  fields.map fun field => symbol ++ "." ++ field.symbol

/-- A field sees the fields before it. -/
def fieldUses (symbol : String) : List String → List FieldDecl → List Use
  | _, [] => []
  | names, field :: rest =>
    usesAt names (field.subindex.toList ++ field.default.toList) ++
      fieldUses symbol (names ++ [symbol ++ "." ++ field.symbol]) rest

namespace RecordDecl

/-- Names of one object of a record. -/
def namesOf (s : RecordDecl) (symbol : String) : List String :=
  symbol :: (fieldNames symbol s.fields ++ propertyNames symbol s.properties)

/-- The fields of a record see its symbol, and the properties all of the fields. -/
def usesOf (s : RecordDecl) (symbol : String) (names : List String) : List Use :=
  fieldUses symbol (names ++ [symbol]) s.fields ++
    propertyUses symbol (names ++ [symbol] ++ fieldNames symbol s.fields) s.properties

/-- The symbol of an object of a record template. -/
def instanceSymbol (s : RecordDecl) (position : Nat) : String :=
  s.symbol ++ "_" ++ Text.decimal position

/-- An instance sees the instances before it, and its index not its own symbol. -/
def instanceUses (s : RecordDecl) : Nat → List String → List Instance → List Use
  | _, _, [] => []
  | position, names, i :: rest =>
    usesAt names [i.index] ++ s.usesOf (s.instanceSymbol position) names ++
      s.instanceUses (position + 1) (names ++ s.namesOf (s.instanceSymbol position)) rest

end RecordDecl

namespace Statement

/-- The names that a statement declares. -/
def names : Statement → List String
  | .make _ => []
  | .assign s => [s.symbol]
  | .variable s => propertyNames s.symbol s.properties ++ [s.symbol]
  | .array s => propertyNames s.symbol s.properties ++ [s.symbol]
  | .record s =>
    if s.instances.isEmpty then s.namesOf s.symbol
    else (List.range s.instances.length).flatMap fun position =>
      s.namesOf (s.instanceSymbol position)

/-- The expressions that a statement evaluates behind names. The index of a record template is not
evaluated. -/
def uses (names : List String) : Statement → List Use
  | .make _ => []
  | .assign s => usesAt names [s.value]
  | .variable s =>
    usesAt names (s.index.toList ++ s.default.toList) ++ propertyUses s.symbol names s.properties
  | .array s =>
    usesAt names (s.index.toList ++ s.size.toList ++ s.values) ++
      propertyUses s.symbol names s.properties
  | .record s =>
    if s.instances.isEmpty then usesAt names s.index.toList ++ s.usesOf s.symbol names
    else s.instanceUses 0 names s.instances

end Statement

/-- The expressions that a program evaluates behind names. -/
def usesFrom : List String → List Statement → List Use
  | _, [] => []
  | names, s :: rest => s.uses names ++ usesFrom (names ++ s.names) rest

/-! ## Evaluation -/

/-- The operand, unless it is a pattern, is one of the names. -/
def Use.Declared (use : Use) : Prop :=
  ∀ view name, use.expr = .symbol view name → Glob.isPattern name = false → name ∈ use.names

theorem forall_usesAt {names : List String} {exprs : List Expr} :
    (∀ use ∈ usesAt names exprs, use.Declared) ↔
      ∀ e ∈ exprs, Use.Declared { expr := e, names } :=
  List.forall_mem_map

namespace Scope

/-- The names that expressions can see. -/
def Shows (scope : Scope) (names : List String) : Prop :=
  ∀ name, name ∈ scope.symbols ↔ name ∈ names

variable {scope : Scope} {names : List String}

theorem Shows.look (shown : scope.Shows names) {view : View} {name : String} {value : Value}
    (made : scope.look view name = .ok value) : name ∈ names := by
  unfold Scope.look at made
  split at made
  · next entity found =>
      rw [← shown, Std.ExtTreeMap.mem_iff_isSome_getElem?, found]
      rfl
  · cases made

theorem Shows.eval (shown : scope.Shows names) {e : Expr} {value : Value}
    (made : scope.eval e = .ok value) : Use.Declared { expr := e, names } := by
  rintro view name rfl _
  exact shown.look made

theorem Shows.evalNat (shown : scope.Shows names) {what : String} {limit n : Nat} {e : Expr}
    (made : scope.evalNat what limit e = .ok n) : Use.Declared { expr := e, names } := by
  obtain ⟨_, made, _⟩ := Except.bind_eq_ok made
  obtain ⟨_, made, _⟩ := Except.bind_eq_ok made
  exact shown.eval made

theorem Shows.evalIndex (shown : scope.Shows names) {what : String} {index : UInt16} {e : Expr}
    (made : scope.evalIndex what e = .ok index) : Use.Declared { expr := e, names } := by
  obtain ⟨_, made, _⟩ := Except.bind_eq_ok made
  exact shown.evalNat made

theorem Shows.mapM_evalNat (shown : scope.Shows names) {what : String} {limit : Nat}
    {written : Option Expr} {number : Option Nat}
    (made : written.mapM (scope.evalNat what limit) = .ok number) :
    ∀ e ∈ written.toList, Use.Declared { expr := e, names } := by
  cases written with
  | none => exact List.forall_mem_nil _
  | some e =>
      obtain ⟨_, made, _⟩ := Except.bind_eq_ok made
      exact List.forall_mem_singleton.mpr (shown.evalNat made)

theorem Shows.evalDefault (shown : scope.Shows names) {written : Option Expr} {value : Value}
    (made : scope.evalDefault written = .ok value) :
    ∀ e ∈ written.toList, Use.Declared { expr := e, names } := by
  cases written with
  | none => exact List.forall_mem_nil _
  | some e => exact List.forall_mem_singleton.mpr (shown.eval made)

theorem Shows.expand (shown : scope.Shows names) {e : Expr} {out : List Value × List Warning}
    (made : scope.expand e = .ok out) : Use.Declared { expr := e, names } := by
  rintro view name rfl plain
  rw [Scope.expand, plain] at made
  obtain ⟨_, made, _⟩ := Except.bind_eq_ok made
  exact shown.look made

theorem Shows.expandAll (shown : scope.Shows names) {items : List Expr}
    {out : List Value × List Warning} (made : scope.expandAll items = .ok out) :
    ∀ e ∈ items, Use.Declared { expr := e, names } := by
  obtain ⟨parts, made, _⟩ := Except.bind_eq_ok made
  intro e member
  obtain ⟨i, place⟩ := List.mem_iff_getElem?.mp member
  obtain ⟨part, expanded, -⟩ := mapM_at made place
  exact shown.expand expanded

end Scope

/-! ## Statements -/

namespace Resolution

variable {r next : Resolution} {names : List String}

theorem nextIndex_declared (shown : r.scope.Shows names) {symbol : String} {written : Option Expr}
    {index : UInt16} (made : r.nextIndex symbol written = .ok index) :
    ∀ e ∈ written.toList, Use.Declared { expr := e, names } := by
  cases written with
  | none => exact List.forall_mem_nil _
  | some e => exact List.forall_mem_singleton.mpr (shown.evalIndex made)

theorem shows_publish (shown : r.scope.Shows names) (name : String) (e : Entity) :
    (r.publish name e).scope.Shows (names ++ [name]) := by
  intro other
  change other ∈ r.symbols.insert name e ↔ _
  rw [Std.ExtTreeMap.mem_insert, List.mem_append, List.mem_singleton, ← shown other,
    Std.LawfulEqCmp.compare_eq_iff_eq, or_comm, eq_comm]
  rfl

theorem shows_insert {object : Object} (shown : r.scope.Shows names)
    (made : r.insert object = .ok next) : next.scope.Shows names := by
  rw [insert_frame made]
  exact shown

theorem annotate_scoped (shown : r.scope.Shows names) {symbol : String}
    {properties : List Property} {before after : ValueMap}
    (made : annotate symbol properties r before = .ok (next, after)) :
    next.scope.Shows (names ++ propertyNames symbol properties) ∧
      ∀ use ∈ propertyUses symbol names properties, use.Declared := by
  induction properties generalizing r names before with
  | nil =>
      cases made
      rw [propertyNames, List.map_nil, List.append_nil]
      exact ⟨shown, List.forall_mem_nil _⟩
  | cons property rest ih =>
      rw [annotate] at made
      obtain ⟨value, evaluated, made⟩ := Except.bind_eq_ok made
      obtain ⟨behind, later⟩ := ih (shows_publish shown _ (.literal value)) made
      rw [propertyNames, List.map_cons, List.append_cons]
      exact ⟨behind, List.forall_mem_cons.mpr ⟨shown.eval evaluated, later⟩⟩

theorem addFields_scoped {access : Access} {symbol description : String} {index : UInt16}
    {fields : List FieldDecl} {p done : Pending} (shown : p.resolution.scope.Shows names)
    (made : fields.foldlM (addField access symbol description index) p = .ok done) :
    done.resolution.scope.Shows (names ++ fieldNames symbol fields) ∧
      ∀ use ∈ fieldUses symbol names fields, use.Declared := by
  induction fields generalizing p names with
  | nil =>
      cases made
      rw [fieldNames, List.map_nil, List.append_nil]
      exact ⟨shown, List.forall_mem_nil _⟩
  | cons field rest ih =>
      rw [List.foldlM_cons] at made
      obtain ⟨one, first, made⟩ := Except.bind_eq_ok made
      obtain ⟨_, _, _, object, placed, evaluated, -, -, -, -, after⟩ := addField_ok first
      have shownOne := shows_publish shown (symbol ++ "." ++ field.symbol)
        (.sub index object.maxSubindex)
      rw [← after] at shownOne
      obtain ⟨behind, later⟩ := ih shownOne made
      -- The record under construction stands before the dictionary and adds no names.
      have shownField : (p.resolution.scopeWith p.object).Shows names := shown
      rw [fieldNames, List.map_cons, List.append_cons]
      refine ⟨behind, List.forall_mem_append.mpr ⟨forall_usesAt.mpr ?_, later⟩⟩
      exact List.forall_mem_append.mpr
        ⟨shownField.mapM_evalNat placed, shownField.evalDefault evaluated⟩

theorem recordObject_scoped (shown : r.scope.Shows names) {s : RecordDecl}
    {symbol description : String} {index : UInt16}
    (made : recordObject s symbol description index r = .ok next) :
    next.scope.Shows (names ++ s.namesOf symbol) ∧
      ∀ use ∈ s.usesOf symbol names, use.Declared := by
  obtain ⟨object, done, annotated, properties, -, fields, notes, inserted⟩ := recordObject_ok made
  obtain ⟨shownDone, first⟩ :=
    addFields_scoped (shows_publish shown symbol (.object index)) fields
  obtain ⟨behind, later⟩ := annotate_scoped shownDone notes
  rw [RecordDecl.namesOf, List.append_cons, ← List.append_assoc]
  exact ⟨shows_insert behind inserted, List.forall_mem_append.mpr ⟨first, later⟩⟩

theorem recordInstances_scoped (shown : r.scope.Shows names) {s : RecordDecl} {position : Nat}
    {instances : List Instance} (made : recordInstances s position instances r = .ok next) :
    next.scope.Shows (names ++ (List.range' position instances.length).flatMap fun position =>
        s.namesOf (s.instanceSymbol position)) ∧
      ∀ use ∈ s.instanceUses position names instances, use.Declared := by
  induction instances generalizing position r names with
  | nil =>
      cases made
      rw [List.length_nil, List.range'_zero, List.flatMap_nil, List.append_nil]
      exact ⟨shown, List.forall_mem_nil _⟩
  | cons i rest ih =>
      rw [recordInstances] at made
      obtain ⟨index, indexed, made⟩ := Except.bind_eq_ok made
      obtain ⟨one, first, made⟩ := Except.bind_eq_ok made
      obtain ⟨shownOne, here⟩ := recordObject_scoped shown first
      obtain ⟨behind, later⟩ := ih shownOne made
      rw [List.length_cons, List.range'_succ, List.flatMap_cons, ← List.append_assoc]
      refine ⟨behind, List.forall_mem_append.mpr ⟨List.forall_mem_append.mpr ⟨?_, here⟩, later⟩⟩
      exact forall_usesAt.mpr (List.forall_mem_singleton.mpr (shown.evalIndex indexed))

theorem declareVariable_scoped (shown : r.scope.Shows names) {s : VariableDecl}
    (made : r.declareVariable s = .ok next) :
    next.scope.Shows (names ++ (Statement.variable s).names) ∧
      ∀ use ∈ (Statement.variable s).uses names, use.Declared := by
  obtain ⟨_, index, _, annotated, _, added, -, indexed, evaluated, notes, inserted, rfl⟩ :=
    declareVariable_ok made
  obtain ⟨behind, later⟩ := annotate_scoped shown notes
  constructor
  · rw [Statement.names, ← List.append_assoc]
    exact shows_publish (shows_insert behind inserted) s.symbol (.object index)
  · refine List.forall_mem_append.mpr ⟨forall_usesAt.mpr ?_, later⟩
    exact List.forall_mem_append.mpr
      ⟨nextIndex_declared shown indexed, shown.evalDefault evaluated⟩

theorem declareArray_scoped (shown : r.scope.Shows names) {s : ArrayDecl}
    (made : r.declareArray s = .ok next) :
    next.scope.Shows (names ++ (Statement.array s).names) ∧
      ∀ use ∈ (Statement.array s).uses names, use.Declared := by
  obtain ⟨_, sized⟩ := declareArray_size made
  obtain ⟨_, index, _, _, _, _, annotated, _, added, -, indexed, expanded, -, notes, inserted,
    after⟩ := declareArray_ok made
  obtain ⟨behind, later⟩ := annotate_scoped (r := r.warn _) shown notes
  constructor
  · have same : next.symbols = (added.publish s.symbol (.object index)).symbols := by
      rw [after]
      split
      · exact (tags_kept _ _ _ _).1
      · rfl
    change ∀ name, name ∈ next.symbols ↔ _
    rw [same, Statement.names, ← List.append_assoc]
    exact shows_publish (shows_insert behind inserted) s.symbol (.object index)
  · refine List.forall_mem_append.mpr ⟨forall_usesAt.mpr ?_, later⟩
    exact List.forall_mem_append.mpr ⟨List.forall_mem_append.mpr
      ⟨nextIndex_declared shown indexed, shown.mapM_evalNat sized⟩, shown.expandAll expanded⟩

/-- A statement adds the names that it declares, and its operands were declared. -/
theorem step_scoped (shown : r.scope.Shows names) {s : Statement} (made : r.step s = .ok next) :
    next.scope.Shows (names ++ s.names) ∧ ∀ use ∈ s.uses names, use.Declared := by
  cases s with
  | make directive =>
      cases made
      rw [Statement.names, List.append_nil]
      exact ⟨shown, List.forall_mem_nil _⟩
  | assign s =>
      obtain ⟨value, evaluated, made⟩ := Except.bind_eq_ok made
      cases made
      refine ⟨shows_publish shown s.symbol (.literal value), forall_usesAt.mpr ?_⟩
      exact List.forall_mem_singleton.mpr (shown.eval evaluated)
  | «variable» s => exact declareVariable_scoped shown made
  | array s => exact declareArray_scoped shown made
  | record s =>
      dsimp only [step, declareRecord] at made
      rw [Statement.names, Statement.uses]
      split at made
      · next alone =>
          obtain ⟨index, indexed, made⟩ := Except.bind_eq_ok made
          obtain ⟨behind, later⟩ := recordObject_scoped shown made
          rw [if_pos alone, if_pos alone]
          refine ⟨behind, List.forall_mem_append.mpr ⟨forall_usesAt.mpr ?_, later⟩⟩
          exact nextIndex_declared shown indexed
      · next several =>
          rw [if_neg several, if_neg several, List.range_eq_range']
          exact recordInstances_scoped (r := r.warn _) shown made

theorem start_shows (engine : Regex.Engine) : ({ engine } : Resolution).scope.Shows [] := by
  intro name
  exact iff_of_false Std.ExtTreeMap.not_mem_empty List.not_mem_nil

theorem steps_scoped {statements : List Statement} (shown : r.scope.Shows names)
    (made : statements.foldlM step r = .ok next) :
    next.scope.Shows (names ++ statements.flatMap Statement.names) ∧
      ∀ use ∈ usesFrom names statements, use.Declared := by
  induction statements generalizing r names with
  | nil =>
      cases made
      rw [List.flatMap_nil, List.append_nil]
      exact ⟨shown, List.forall_mem_nil _⟩
  | cons s rest ih =>
      rw [List.foldlM_cons] at made
      obtain ⟨one, first, made⟩ := Except.bind_eq_ok made
      obtain ⟨shownOne, here⟩ := step_scoped shown first
      obtain ⟨behind, later⟩ := ih shownOne made
      rw [List.flatMap_cons, ← List.append_assoc]
      exact ⟨behind, List.forall_mem_append.mpr ⟨here, later⟩⟩

end Resolution

/-- The symbol table of an accepted program has the names that its statements declare, and every
operand that is no pattern is a name which is declared before its evaluation. -/
theorem resolve_scoped {engine : Regex.Engine} {statements : List Statement} {c : Compiled}
    (made : resolve engine statements = .ok c) :
    (∀ name, name ∈ c.symbols ↔ name ∈ statements.flatMap Statement.names) ∧
      ∀ use ∈ usesFrom [] statements, ∀ view name, use.expr = .symbol view name →
        Glob.isPattern name = false → name ∈ use.names := by
  obtain ⟨r, steps, made⟩ := Except.bind_eq_ok made
  cases made
  exact Resolution.steps_scoped (Resolution.start_shows engine) steps

/-- A record template with two objects. The second one takes its index from the first, fields and
properties refer to what comes before them, and the index of the template itself, which names
nothing, is not evaluated. -/
def templateStatements : List Statement :=
  [.assign { place := ⟨1, 1⟩, symbol := "base", value := .literal (.int 0x2000) },
   .record
    { place := ⟨2, 1⟩, access := Access.read, symbol := "in",
      instances := [⟨.symbol .default "base", "First"⟩, ⟨.symbol .default "in_0.next", "Second"⟩],
      index := some (.symbol .default "missing"), description := none,
      properties := [⟨"next", .literal (.int 0x2100)⟩, ⟨"own", .symbol .index "in_0"⟩],
      fields := [
        { place := ⟨3, 1⟩, typeName := "UINT", access := Access.empty, symbol := "level",
          subindex := none, default := none, description := none },
        { place := ⟨4, 1⟩, typeName := "UINT", access := Access.empty, symbol := "copy",
          subindex := none, default := some (.symbol .default "in_0.level"),
          description := none }] }]

theorem resolve_scoped_template :
    ∃ c, resolve .plain templateStatements = .ok c ∧
      (∀ name, name ∈ c.symbols ↔ name ∈ ["base",
        "in_0", "in_0.level", "in_0.copy", "in_0.next", "in_0.own",
        "in_1", "in_1.level", "in_1.copy", "in_1.next", "in_1.own"]) ∧
      ∃ use ∈ usesFrom [] templateStatements, use.expr = .symbol .default "in_0.next" ∧
        "in_0.next" ∈ use.names := by
  have accepted : (resolve .plain templateStatements).toOption.isSome = true := by
    decide +kernel
  have listed : templateStatements.flatMap Statement.names = ["base",
      "in_0", "in_0.level", "in_0.copy", "in_0.next", "in_0.own",
      "in_1", "in_1.level", "in_1.copy", "in_1.next", "in_1.own"] := by
    decide +kernel
  have used : Use.mk (.symbol .default "in_0.next")
      ["base", "in_0", "in_0.level", "in_0.copy", "in_0.next", "in_0.own"] ∈
      usesFrom [] templateStatements := by
    decide +kernel
  obtain ⟨c, made⟩ := Option.isSome_iff_exists.mp accepted
  have same := Except.eq_ok_of_toOption made
  obtain ⟨names, declared⟩ := resolve_scoped same
  rw [listed] at names
  exact ⟨c, same, names, _, used, rfl, declared _ used .default "in_0.next" rfl (by decide)⟩

end EcatDevice
