import EcatDevice.Source.Grammar

/-! # Printing of syntax trees

The canonical text of a syntax tree: its tokens in a row, divided by single blanks. Integers are
decimal, texts are quoted, an access mask is a row of keywords of one bit each. The attributes of a
declaration stand in the order index, description, properties, and then the default or the
initializer list.

`Statement.Printable` says for which trees the text is one of the source language: names follow the
lexical rules, no literal is a real number, and no declaration looks like something else.
-/

namespace EcatDevice

namespace Source

/-! ## Tokens -/

/-- A character between quotes. -/
def escape (c : Char) : List Char :=
  if c = '"' ∨ c = '\\' then ['\\', c] else [c]

/-- A text in double quotes. -/
def quoted (text : String) : String :=
  String.ofList ('"' :: (text.toList.flatMap escape ++ ['"']))

end Source

open Source

/-- The operator in front of a name. -/
def View.mark : View → String
  | .default => ""
  | .reference => "&"
  | .index => "$"

def Value.token : Value → String
  | .str text => quoted text
  | number => number.display

def Expr.token : Expr → String
  | .literal value => value.token
  | .symbol view name => view.mark ++ name

namespace Access

/-- The keywords that grant one permission each. -/
def singles : List (String × Access) :=
  keywords.filter fun entry => entry.2.bits != 0 && entry.2.bits &&& (entry.2.bits - 1) == 0

/-- The permissions of a mask, one by one. -/
def tokens (access : Access) : List String :=
  (singles.filter fun entry => access.contains entry.2).map Prod.fst

end Access

/-! ## Attributes -/

/-- What may stand behind the symbol of a declaration. -/
inductive Attribute where
  | index (e : Expr)
  | description (text : String)
  | property (p : Property)
  | default (e : Expr)

def Attribute.tokens : Attribute → List String
  | .index e => ["@", e.token]
  | .description text => [quoted text]
  | .property p => [".", p.key, "=", p.value.token]
  | .default e => ["=", e.token]

/-- The attributes that all objects may have, in their order. -/
def objectAttributes (index : Option Expr) (description : Option String)
    (properties : List Property) : List Attribute :=
  index.toList.map .index ++ description.toList.map .description ++ properties.map .property

/-! ## Statements -/

def Instance.tokens (i : Instance) : List String :=
  ["(", i.index.token, ",", quoted i.description, ")"]

/-- The items of an initializer list behind the first one. -/
def itemTokens (items : List Expr) : List String :=
  items.flatMap fun e => [",", e.token]

/-- An initializer list; an empty one is left out. -/
def listTokens : List Expr → List String
  | [] => []
  | first :: rest => "=" :: "\x7b" :: first.token :: itemTokens rest ++ ["\x7d"]

namespace FieldDecl

def attributes (d : FieldDecl) : List Attribute :=
  objectAttributes d.subindex d.description [] ++ d.default.toList.map .default

def tokens (d : FieldDecl) : List String :=
  d.typeName :: d.access.tokens ++ d.symbol :: d.attributes.flatMap Attribute.tokens ++ [";"]

end FieldDecl

namespace Statement

def tokens : Statement → List String
  | .make d => "make" :: d.generator :: d.args.map quoted ++ [";"]
  | .assign d => [d.symbol, "=", d.value.token, ";"]
  | .variable d =>
    d.typeName :: d.access.tokens ++ d.symbol ::
      (objectAttributes d.index d.description d.properties).flatMap Attribute.tokens
      ++ (d.default.toList.map Attribute.default).flatMap Attribute.tokens ++ [";"]
  | .array d =>
    d.typeName :: d.access.tokens ++ d.symbol :: "[" :: d.size.toList.map Expr.token ++ "]" ::
      (objectAttributes d.index d.description d.properties).flatMap Attribute.tokens
      ++ listTokens d.values ++ [";"]
  | .record d =>
    "record" :: d.access.tokens ++ d.symbol :: d.instances.flatMap Instance.tokens
      ++ (objectAttributes d.index d.description d.properties).flatMap Attribute.tokens
      ++ "\x7b" :: d.fields.flatMap FieldDecl.tokens ++ ["\x7d", ";"]

end Statement

namespace Source

/-- The canonical text of a syntax tree. -/
def print (tree : List Statement) : String :=
  " ".intercalate (tree.flatMap Statement.tokens)

/-! ## Printable trees -/

/-- A text that starts with a character of one class and goes on with another. -/
def isStarted (start continued : Char → Bool) (text : String) : Bool :=
  match text.toList with
  | c :: rest => start c && rest.all continued
  | [] => false

def isIdent : String → Bool := isStarted isNameStart isWordChar

def isName : String → Bool := isStarted isNameStart isNameChar

def isWildName : String → Bool :=
  isStarted (fun c => isNameStart c || isWildcard c) (fun c => isNameChar c || isWildcard c)

/-- An identifier, alone or with a width in parentheses. -/
def IsTypeName (text : String) : Prop :=
  isIdent text ∨ ∃ ident digits, text = ident ++ "(" ++ digits ++ ")" ∧ isIdent ident ∧
    digits ≠ "" ∧ digits.toList.all Char.isDigit

/-- The word characters at the front of a text. -/
def leadingWord (text : String) : String :=
  String.ofList (text.toList.takeWhile isWordChar)

/-- A symbol that cannot be taken for an access keyword. -/
def NoKeyword (symbol : String) : Prop :=
  Access.ofKeyword? (leadingWord symbol) = none

instance (symbol : String) : Decidable (NoKeyword symbol) :=
  inferInstanceAs (Decidable (_ = _))

end Source

/-- An operand that is no real number, with a name of the given form. -/
def Expr.Printable (isName : String → Bool) : Expr → Prop
  | .literal (.real _) => False
  | .literal _ => True
  | .symbol _ name => isName name

instance (isName : String → Bool) : (e : Expr) → Decidable (e.Printable isName)
  | .literal (.int _) | .literal (.str _) => isTrue trivial
  | .literal (.real _) => isFalse id
  | .symbol _ name => inferInstanceAs (Decidable (isName name = true))

def Access.Printable (access : Access) : Prop :=
  access.bits < 0x2000

instance (access : Access) : Decidable access.Printable :=
  inferInstanceAs (Decidable (_ < _))

structure Property.Printable (p : Property) : Prop where
  key : isIdent p.key
  value : p.value.Printable isName

structure FieldDecl.Printable (d : FieldDecl) : Prop where
  typeName : IsTypeName d.typeName
  access : d.access.Printable
  symbol : isIdent d.symbol ∧ NoKeyword d.symbol
  subindex : ∀ e ∈ d.subindex, e.Printable isName
  default : ∀ e ∈ d.default, e.Printable isName

structure VariableDecl.Printable (d : VariableDecl) : Prop where
  typeName : IsTypeName d.typeName ∧ d.typeName ≠ "make"
  access : d.access.Printable
  symbol : isName d.symbol ∧ NoKeyword d.symbol
  index : ∀ e ∈ d.index, e.Printable isName
  properties : ∀ p ∈ d.properties, p.Printable
  default : ∀ e ∈ d.default, e.Printable isName

structure ArrayDecl.Printable (d : ArrayDecl) : Prop where
  typeName : IsTypeName d.typeName ∧ d.typeName ≠ "make"
  access : d.access.Printable
  symbol : isName d.symbol ∧ NoKeyword d.symbol
  size : ∀ e ∈ d.size, e.Printable isName
  index : ∀ e ∈ d.index, e.Printable isName
  properties : ∀ p ∈ d.properties, p.Printable
  values : ∀ e ∈ d.values, e.Printable isWildName

structure RecordDecl.Printable (d : RecordDecl) : Prop where
  access : d.access.Printable
  symbol : isName d.symbol ∧ NoKeyword d.symbol
  instances : ∀ i ∈ d.instances, i.index.Printable isName
  index : ∀ e ∈ d.index, e.Printable isName
  properties : ∀ p ∈ d.properties, p.Printable
  fields : ∀ f ∈ d.fields, f.Printable

def Statement.Printable : Statement → Prop
  | .make d => isName d.generator
  | .assign d => isName d.symbol ∧ d.value.Printable isName
  | .variable d => d.Printable
  | .array d => d.Printable
  | .record d => d.Printable

/-! ## Trees without places -/

def FieldDecl.unplaced (d : FieldDecl) : FieldDecl :=
  { d with place := Location.start }

/-- A statement without the places in the text that it came from. -/
def Statement.unplaced : Statement → Statement
  | .make d => .make { d with place := Location.start }
  | .assign d => .assign { d with place := Location.start }
  | .variable d => .variable { d with place := Location.start }
  | .array d => .array { d with place := Location.start }
  | .record d =>
    .record { d with place := Location.start, fields := d.fields.map FieldDecl.unplaced }

end EcatDevice
