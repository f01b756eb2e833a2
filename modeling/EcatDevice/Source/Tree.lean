import EcatDevice.Access
import EcatDevice.Value

/-! # Syntax trees

The statements of a source text as they are written. Names are kept as text, and every expression is
evaluated later, when its statement is resolved.
-/

namespace EcatDevice

/-- Which view of a named thing an operand asks for. -/
inductive View where
  /-- the bare name: its default value -/
  | default
  /-- the name behind an ampersand: its mapping reference -/
  | reference
  /-- the name behind a dollar sign: the index of its object -/
  | index
  deriving DecidableEq, Repr

/-- A literal or a named operand. In an initializer list the name may be a pattern. -/
inductive Expr where
  | literal (value : Value)
  | symbol (view : View) (name : String)
  deriving DecidableEq, Repr

structure Property where
  key : String
  value : Expr
  deriving DecidableEq, Repr

structure Directive where
  place : Location
  generator : String
  args : List String
  deriving DecidableEq, Repr

structure Assignment where
  place : Location
  symbol : String
  value : Expr
  deriving DecidableEq, Repr

structure VariableDecl where
  place : Location
  typeName : String
  access : Access
  symbol : String
  index : Option Expr
  default : Option Expr
  description : Option String
  properties : List Property
  deriving DecidableEq, Repr

structure ArrayDecl where
  place : Location
  typeName : String
  access : Access
  symbol : String
  size : Option Expr
  index : Option Expr
  description : Option String
  properties : List Property
  values : List Expr
  deriving DecidableEq, Repr

structure FieldDecl where
  place : Location
  typeName : String
  access : Access
  symbol : String
  subindex : Option Expr
  default : Option Expr
  description : Option String
  deriving DecidableEq, Repr

/-- Index and description of one object made from a record template. -/
structure Instance where
  index : Expr
  description : String
  deriving DecidableEq, Repr

/-- Declares an object of fields, or one such object for each instance. -/
structure RecordDecl where
  place : Location
  access : Access
  symbol : String
  instances : List Instance
  index : Option Expr
  description : Option String
  properties : List Property
  fields : List FieldDecl
  deriving DecidableEq, Repr

inductive Statement where
  | make (directive : Directive)
  | assign (assignment : Assignment)
  | variable (decl : VariableDecl)
  | array (decl : ArrayDecl)
  | record (decl : RecordDecl)
  deriving DecidableEq, Repr

end EcatDevice
