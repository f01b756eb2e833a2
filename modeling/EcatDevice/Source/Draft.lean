import EcatDevice.Source.Lexeme
import EcatDevice.Source.Tree

/-! # Drafts of statements

A draft is a statement as the grammar reads it: its literals are spellings, which may denote no
value, and its clauses stand in a row, where one may stand twice. Checking a draft gives the syntax
tree or the first problem in the order of the text.

Drafts know places by the number of characters left to the end of the text.
-/

namespace EcatDevice.Source

inductive DraftExpr where
  | literal (left : Nat) (spelling : Spelling)
  | symbol (view : View) (name : String)
  deriving DecidableEq, Repr

inductive Clause where
  | index (e : DraftExpr)
  | default (e : DraftExpr)
  | description (text : String)
  | property (key : String) (e : DraftExpr)
  /-- the initializer list of an array -/
  | values (items : List DraftExpr)
  deriving DecidableEq, Repr

structure DraftField where
  left : Nat
  typeName : String
  access : Access
  symbol : String
  clauses : List Clause
  deriving DecidableEq, Repr

inductive Draft where
  | make (left : Nat) (generator : String) (args : List String)
  | assign (left : Nat) (symbol : String) (value : DraftExpr)
  | variable (left : Nat) (typeName : String) (access : Access) (symbol : String)
      (clauses : List Clause)
  | array (left : Nat) (typeName : String) (access : Access) (symbol : String)
      (size : Option DraftExpr) (clauses : List Clause)
  | record (left : Nat) (access : Access) (symbol : String)
      (instances : List (DraftExpr × String)) (clauses : List Clause) (fields : List DraftField)
  deriving DecidableEq, Repr

/-- The place in `source` with so many characters left behind it. -/
def placeOf (source : List Char) (left : Nat) : Location :=
  Location.behind (source.take (source.length - left))

def DraftExpr.check (source : List Char) : DraftExpr → Except Error Expr
  | .symbol view name => .ok (.symbol view name)
  | .literal left spelling =>
    match spelling.value? with
    | some value => .ok (.literal value)
    | none => .error (.parse (placeOf source left) (.outOfRange spelling.written))

structure Clauses where
  index : Option Expr := none
  default : Option Expr := none
  description : Option String := none
  properties : List Property := []
  values : List Expr := []
  deriving DecidableEq, Repr

namespace Clauses

/-- Fills a place that may be filled once. -/
def once {α : Type} (place : Location) (what : String) (slot : Option α) (a : α) :
    Except Error (Option α) :=
  match slot with
  | none => .ok (some a)
  | some _ => .error (.parse place (.repeated what))

/-- Adds the next clause of a declaration at `place`, whose index is called `indexName`. -/
def add (source : List Char) (place : Location) (indexName : String) (clauses : Clauses) :
    Clause → Except Error Clauses
  | .index e => do
    let index ← once place indexName clauses.index (← e.check source)
    return { clauses with index }
  | .default e => do
    let default ← once place "default" clauses.default (← e.check source)
    return { clauses with default }
  | .description text => do
    let description ← once place "description" clauses.description text
    return { clauses with description }
  | .property key e => do
    let value ← e.check source
    return { clauses with properties := clauses.properties ++ [{ key, value }] }
  | .values items => do
    let values ← items.mapM (·.check source)
    return { clauses with values }

def collect (source : List Char) (place : Location) (indexName : String) (clauses : List Clause) :
    Except Error Clauses :=
  clauses.foldlM (add source place indexName) {}

end Clauses

def DraftField.check (source : List Char) (draft : DraftField) : Except Error FieldDecl := do
  let place := placeOf source draft.left
  let clauses ← Clauses.collect source place "subindex" draft.clauses
  return {
    place, typeName := draft.typeName, access := draft.access, symbol := draft.symbol,
    subindex := clauses.index, default := clauses.default, description := clauses.description }

def Draft.check (source : List Char) : Draft → Except Error Statement
  | .make left generator args =>
    .ok (.make { place := placeOf source left, generator, args })
  | .assign left symbol value => do
    let value ← value.check source
    return .assign { place := placeOf source left, symbol, value }
  | .variable left typeName access symbol clauses => do
    let place := placeOf source left
    let c ← Clauses.collect source place "index" clauses
    return .variable {
      place, typeName, access, symbol, index := c.index, default := c.default,
      description := c.description, properties := c.properties }
  | .array left typeName access symbol size clauses => do
    let place := placeOf source left
    let size ← size.mapM (·.check source)
    let c ← Clauses.collect source place "index" clauses
    return .array {
      place, typeName, access, symbol, size, index := c.index, description := c.description,
      properties := c.properties, values := c.values }
  | .record left access symbol instances clauses fields => do
    let place := placeOf source left
    let instances ← instances.mapM fun (index, description) => do
      return { index := ← index.check source, description }
    let c ← Clauses.collect source place "index" clauses
    let fields ← fields.mapM (·.check source)
    return .record {
      place, access, symbol, instances, index := c.index, description := c.description,
      properties := c.properties, fields }

end EcatDevice.Source
