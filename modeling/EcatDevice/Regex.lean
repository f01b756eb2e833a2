/-! # Regular expressions

Patterns of names are translated to regular expressions, which an engine compiles and searches for.
The library knows an engine by what it offers and nothing else; it may refuse any expression.
`Engine.plain` knows the few forms that patterns are made of.
-/

namespace EcatDevice.Regex

structure Engine where
  /-- An expression for a text as it stands. -/
  escape : String → String
  /-- The test whether an expression occurs in a text, or why the engine refuses the expression. -/
  compile : String → Except String (String → Bool)

inductive Item where
  /-- the start of the text -/
  | start
  /-- the end of the text -/
  | stop
  /-- any one character but a line feed -/
  | any
  /-- any run of such characters, possibly empty -/
  | run
  | char (c : Char)
  deriving DecidableEq, Repr

/-! ## Reading -/

/-- Characters that stand for themselves only behind a backslash. -/
def isMeta (c : Char) : Bool :=
  "\\.+*?()|[]\x7b\x7d^$#&-~".toList.contains c

def escapeChar (c : Char) : List Char :=
  if isMeta c then ['\\', c] else [c]

/-- The items of an expression, unless it has another form. -/
def read : List Char → Option (List Item)
  | [] => some []
  | '^' :: rest => (read rest).map (.start :: ·)
  | '$' :: rest => (read rest).map (.stop :: ·)
  | '.' :: '*' :: rest => (read rest).map (.run :: ·)
  | '.' :: rest => (read rest).map (.any :: ·)
  | '\\' :: c :: rest => (read rest).map (.char c :: ·)
  | c :: rest => if isMeta c then none else (read rest).map (.char c :: ·)

/-! ## Search

A row holds an answer for each suffix of a text, the longest first.
-/

/-- From the answers for all suffixes, the answers when the text has to start there. -/
def startRow : List Bool → List Bool
  | [] => []
  | first :: rest => first :: rest.map fun _ => false

/-- The answers when the text has to end there. -/
def stopRow : List Bool → List Bool
  | [] => []
  | [last] => [last]
  | _ :: rest => false :: stopRow rest

/-- The answers when a character that passes `p` has to stand in front. -/
def charRow (p : Char → Bool) : List Char → List Bool → List Bool
  | c :: text, _ :: next :: row => (p c && next) :: charRow p text (next :: row)
  | _, _ => [false]

/-- The answers when any run of characters that pass `p` may stand in front. -/
def runRow (p : Char → Bool) : List Char → List Bool → List Bool
  | c :: text, here :: row =>
    match runRow p text row with
    | [] => [here]
    | later :: more => (here || p c && later) :: later :: more
  | _, row => row

def isAny (c : Char) : Bool :=
  c != '\n'

/-- For each suffix of a text, whether the items match from its start on. -/
def rows (text : List Char) : List Item → List Bool
  | [] => List.replicate (text.length + 1) true
  | .start :: items => startRow (rows text items)
  | .stop :: items => stopRow (rows text items)
  | .any :: items => charRow isAny text (rows text items)
  | .run :: items => runRow isAny text (rows text items)
  | .char c :: items => charRow (· == c) text (rows text items)

/-- Whether the items match from some place of a text on. -/
def occurs (items : List Item) (text : List Char) : Bool :=
  (rows text items).any id

def Engine.plain : Engine where
  escape text := String.ofList (text.toList.flatMap escapeChar)
  compile expression :=
    match read expression.toList with
    | some items => .ok fun text => occurs items text.toList
    | none => .error "unknown form of expression"

end EcatDevice.Regex
