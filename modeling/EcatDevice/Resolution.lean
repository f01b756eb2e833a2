import EcatDevice.Glob
import EcatDevice.Settings.Basic
import EcatDevice.Source.Grammar
import EcatDevice.Symbol

/-! # Resolution

Statements are resolved one by one into the dictionary, the symbol table and the list of make
directives. An expression sees the names declared before it and nothing else; the first error ends
the resolution.
-/

namespace EcatDevice

inductive Warning where
  /-- a pattern that stands for no value -/
  | unmatched (pattern : String)
  /-- an entry of a mapping array that names no sub-object -/
  | dangling (symbol : String) (reference : Int64)
  /-- a record template with an index or a description of its own -/
  | ignored (symbol : String)
  deriving DecidableEq, Repr

def Warning.message : Warning → String
  | .unmatched pattern => "pattern " ++ pattern ++ " matches nothing"
  | .dangling symbol reference =>
    symbol ++ ": mapping entry 0x" ++ Text.hexFillUpper 8 reference.toUInt64.toNat
      ++ " refers to no sub-object"
  | .ignored symbol => symbol ++ ": @index and description are ignored on a templated record"

/-! ## Evaluation -/

structure Scope where
  symbols : SymbolTable
  find : Finder
  engine : Regex.Engine

namespace Scope

def look (scope : Scope) (view : View) (name : String) : Except Error Value :=
  match scope.symbols[name]? with
  | some entity => entity.view scope.find view name
  | none => .error (.undefinedSymbol name)

def eval (scope : Scope) : Expr → Except Error Value
  | .literal value => .ok value
  | .symbol view name => scope.look view name

/-- The value of an expression that has to be an integer; `what` names it in errors. -/
def evalInt (scope : Scope) (what : String) (e : Expr) : Except Error Int64 := do
  match ← scope.eval e with
  | .int n => .ok n
  | other => .error (.typeMismatch what "integer" other.display)

/-- The value of an expression that has to be a natural number up to `limit`. -/
def evalNat (scope : Scope) (what : String) (limit : Nat) (e : Expr) : Except Error Nat := do
  let n ← scope.evalInt what e
  if 0 ≤ n.toInt ∧ n.toInt ≤ limit then .ok n.toInt.toNat else .error (.overflow what n.toInt)

def evalIndex (scope : Scope) (what : String) (e : Expr) : Except Error UInt16 :=
  return UInt16.ofNat (← scope.evalNat what 0xffff e)

/-- The value of an expression, or zero if there is none. -/
def evalDefault (scope : Scope) : Option Expr → Except Error Value
  | some e => scope.eval e
  | none => .ok Value.zero

/-- The value that a matching name adds to those of a pattern: none if the name lacks the view. -/
def pick (scope : Scope) (view : View) (name : String) (entity : Entity) :
    Except Error (Option Value) :=
  match entity.view scope.find view name with
  | .ok value => .ok (some value)
  | .error (.nonReferenceable _) => .ok none
  | .error e => .error e

/-- The values of all names that pass a test, in the order of the names. -/
def matching (scope : Scope) (view : View) (test : String → Bool) : Except Error (List Value) := do
  let entries := scope.symbols.toList.filter fun (name, _) => test name
  let picked ← entries.mapM fun (name, entity) => scope.pick view name entity
  return picked.filterMap id

/-- The values that a pattern stands for, ascending. -/
def expandPattern (scope : Scope) (view : View) (pattern : String) : Except Error (List Value) := do
  let test ← Glob.matcher scope.engine pattern
  let values ← scope.matching view test
  match Value.sort? values with
  | some values => .ok values
  | none => .error (.unsupported ("pattern " ++ pattern ++ ": its values have no order"))

def expand (scope : Scope) : Expr → Except Error (List Value × List Warning)
  | .literal value => .ok ([value], [])
  | .symbol view name =>
    if Glob.isPattern name then do
      let values ← scope.expandPattern view name
      return (values, if values.isEmpty then [.unmatched name] else [])
    else return ([← scope.look view name], [])

def expandAll (scope : Scope) (items : List Expr) : Except Error (List Value × List Warning) := do
  let parts ← items.mapM scope.expand
  return (parts.flatMap Prod.fst, parts.flatMap Prod.snd)

end Scope

/-! ## Statements -/

structure Resolution where
  /-- Matches patterns, the same throughout. -/
  engine : Regex.Engine
  dictionary : Dictionary := {}
  symbols : SymbolTable := ∅
  /-- Index of the object declared last. -/
  lastIndex : UInt16 := 0
  makes : List Directive := []
  warnings : List Warning := []

namespace Resolution

def scope (r : Resolution) : Scope :=
  { symbols := r.symbols, find := r.dictionary.get?, engine := r.engine }

/-- What the fields of a record see: the record as far as it is built stands before the
dictionary. -/
def scopeWith (r : Resolution) (pending : Object) : Scope :=
  { symbols := r.symbols
    find := fun index =>
      if pending.index = index then some pending else r.dictionary.get? index
    engine := r.engine }

/-- Declares a name, in place of what it stood for. -/
def publish (r : Resolution) (name : String) (entity : Entity) : Resolution :=
  { r with symbols := r.symbols.insert name entity }

def warn (r : Resolution) (warnings : List Warning) : Resolution :=
  { r with warnings := r.warnings ++ warnings }

/-- The index an object asks for, or the one behind the object before. -/
def nextIndex (r : Resolution) (symbol : String) : Option Expr → Except Error UInt16
  | some e => r.scope.evalIndex (symbol ++ " index") e
  | none =>
    if r.lastIndex < 0xffff then .ok (r.lastIndex + 1)
    else .error (.overflow (symbol ++ " index") 0x10000)

/-- Evaluates the annotations of an object in order, each declared as a name of its own. -/
def annotate (symbol : String) :
    List Property → Resolution → ValueMap → Except Error (Resolution × ValueMap)
  | [], r, annotations => .ok (r, annotations)
  | property :: rest, r, annotations => do
    let value ← r.scope.eval property.value
    annotate symbol rest (r.publish (symbol ++ "." ++ property.key) (.literal value))
      (annotations.insert property.key value)

/-- Adds an object to the dictionary. Its defaults have to fit their types. -/
def insert (r : Resolution) (object : Object) : Except Error Resolution := do
  let _ ← object.subs.mapM SubObject.encodedDefault
  let dictionary ← r.dictionary.insert object
  return { r with dictionary, lastIndex := object.index }

def assign (r : Resolution) (s : Assignment) : Except Error Resolution := do
  let value ← r.scope.eval s.value
  return r.publish s.symbol (.literal value)

def declareVariable (r : Resolution) (s : VariableDecl) : Except Error Resolution := do
  let t ← BasicType.find s.typeName
  let index ← r.nextIndex s.symbol s.index
  let default ← r.scope.evalDefault s.default
  let description := s.description.getD (Object.defaultDescription index)
  let object := Object.single index s.symbol description s.access t default
  let (r, properties) ← annotate s.symbol s.properties r ∅
  let r ← r.insert { object with properties }
  return r.publish s.symbol (.object index)

/-- Marks the sub-object that one entry of a mapping array refers to. -/
def tag (symbol : String) (direction : Direction) (r : Resolution) (entry : Int64) : Resolution :=
  match MapRef.ofInt? entry with
  | some reference =>
    if (r.dictionary.find? reference).isSome then
      { r with dictionary := r.dictionary.grant reference direction.flag }
    else if entry = 0 then r
    else r.warn [.dangling symbol entry]
  | none => r.warn [.dangling symbol entry]

/-- A declaration of an array. One at an index of mapping objects marks what it refers to. -/
def declareArray (r : Resolution) (s : ArrayDecl) : Except Error Resolution := do
  let t ← BasicType.find s.typeName
  let index ← r.nextIndex s.symbol s.index
  let size ← s.size.mapM (r.scope.evalNat (s.symbol ++ " size") 0xffffffffffffffff)
  let (values, warnings) ← r.scope.expandAll s.values
  let r := r.warn warnings
  let description := s.description.getD (Object.defaultDescription index)
  let object ← Object.array index s.symbol description s.access t size values
  let (r, properties) ← annotate s.symbol s.properties r ∅
  let r ← r.insert { object with properties }
  let r := r.publish s.symbol (.object index)
  return match Direction.ofMapIndex? index with
    | some direction =>
      (object.payload.filterMap (·.default.int?)).foldl (tag s.symbol direction) r
    | none => r

structure Pending where
  resolution : Resolution
  fields : List FieldSpec
  object : Object

/-- Adds the next field to a record: it sees the fields before it. -/
def addField (access : Access) (symbol description : String) (index : UInt16) (p : Pending)
    (field : FieldDecl) : Except Error Pending := do
  let qualified := symbol ++ "." ++ field.symbol
  let scope := p.resolution.scopeWith p.object
  let subindex ← field.subindex.mapM (scope.evalNat (qualified ++ " subindex") 0xff)
  let default ← scope.evalDefault field.default
  let basicType ← BasicType.find field.typeName
  let fields := p.fields ++ [{
    subindex := subindex.map UInt8.ofNat, access := field.access ||| access, basicType,
    symbol := field.symbol, default, description := field.description }]
  let object ← Object.record index symbol description fields
  return {
    resolution := p.resolution.publish qualified (.sub index object.maxSubindex), fields, object }

/-- One object of a record declaration. Its name is declared before its fields, and its annotations
are evaluated when it is complete but not yet in the dictionary. -/
def recordObject (s : RecordDecl) (symbol description : String) (index : UInt16) (r : Resolution) :
    Except Error Resolution := do
  let object ← Object.record index symbol description []
  let start : Pending := { resolution := r.publish symbol (.object index), fields := [], object }
  let done ← s.fields.foldlM (addField s.access symbol description index) start
  let (r, properties) ← annotate symbol s.properties done.resolution ∅
  r.insert { done.object with properties }

def recordInstances (s : RecordDecl) :
    Nat → List Instance → Resolution → Except Error Resolution
  | _, [], r => .ok r
  | position, i :: rest, r => do
    let symbol := s.symbol ++ "_" ++ Text.decimal position
    let index ← r.scope.evalIndex (symbol ++ " index") i.index
    let r ← recordObject s symbol i.description index r
    recordInstances s (position + 1) rest r

def declareRecord (r : Resolution) (s : RecordDecl) : Except Error Resolution :=
  if s.instances.isEmpty then do
    let index ← r.nextIndex s.symbol s.index
    recordObject s s.symbol (s.description.getD (Object.defaultDescription index)) index r
  else
    let ignored := s.index.isSome || s.description.isSome
    recordInstances s 0 s.instances (r.warn (if ignored then [.ignored s.symbol] else []))

def step (r : Resolution) : Statement → Except Error Resolution
  | .make directive => .ok { r with makes := r.makes ++ [directive] }
  | .assign s => r.assign s
  | .variable s => r.declareVariable s
  | .array s => r.declareArray s
  | .record s => r.declareRecord s

def settings (r : Resolution) : Settings :=
  Settings.ofList <| r.symbols.toList.filterMap fun (name, entity) =>
    match entity.defaultOf r.dictionary.get? name with
    | .ok value => some (name, value)
    | .error _ => none

end Resolution

/-! ## Whole programs -/

/-- A described device: its objects and its configuration. Generators work on it. -/
structure Device where
  dictionary : Dictionary := {}
  settings : Settings := {}

structure Compiled where
  device : Device
  makes : List Directive
  symbols : SymbolTable
  warnings : List Warning

def resolve (engine : Regex.Engine) (statements : List Statement) : Except Error Compiled := do
  let r ← statements.foldlM Resolution.step { engine }
  return {
    device := { dictionary := r.dictionary, settings := r.settings }
    makes := r.makes, symbols := r.symbols, warnings := r.warnings }

def compile (engine : Regex.Engine) (source : String) : Except Error Compiled := do
  resolve engine (← Source.parse source)

end EcatDevice
