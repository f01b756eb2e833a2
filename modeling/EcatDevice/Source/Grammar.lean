import EcatDevice.Source.Draft
import EcatDevice.Source.Parser

/-! # Grammar

The rules of the source language, from operands up to whole texts. A text is a row of statements;
`parse` gives their syntax trees.
-/

namespace EcatDevice.Source

open Source.Parser

/-! ## Operands -/

def name : Parser String := named .name (lexeme lexName)

def wildName : Parser String := named .wildName (lexeme lexWildName)

def ident : Parser String := named .ident (lexeme lexIdent)

def typeName : Parser String := named .typeName (lexeme lexTypeName)

def string : Parser String := named .string (lexeme lexString)

def literal : Parser DraftExpr := named .literal do
  let left ← left
  let spelling ← named .hex (lexeme lexHex) <|> named .real (lexeme lexReal)
    <|> named .int (lexeme lexInt) <|> named .string (lexeme lexText)
  return .literal left spelling

/-- An operator directly in front of its operand. -/
def operand (rule : Rule) (mark : Char) (view : View) (p : Parser String) : Parser DraftExpr :=
  named rule do
    char mark
    let name ← p
    return .symbol view name

def bare (p : Parser String) : Parser DraftExpr := do
  let name ← p
  return .symbol .default name

def expr : Parser DraftExpr :=
  named .expr <|
    literal <|> operand .refExpr '&' .reference name <|> operand .indexExpr '$' .index name
      <|> bare name

def listItem : Parser DraftExpr :=
  named .listItem <|
    literal <|> operand .wildRef '&' .reference wildName
      <|> operand .wildIndex '$' .index wildName <|> bare wildName

/-- The items of an initializer list, divided by commas; one more comma may end it. -/
def listExpr : Parser (List DraftExpr) := named .listExpr do
  let first ← listItem
  blanks
  let rest ← many do
    char ','
    blanks
    listItem
  blanks
  let _ ← optional (char ',')
  return first :: rest

/-! ## Clauses -/

/-- All access keywords in a row, taken together. -/
def access : Parser Access := named .access do
  let granted ← many (named .accessKeyword (lexeme lexAccess))
  return granted.foldl (· ||| ·) Access.empty

def indexSpec : Parser Clause := named .indexSpec do
  char '@'
  blanks
  let e ← expr
  return .index e

def defaultSpec : Parser Clause := named .defaultSpec do
  char '='
  blanks
  let e ← expr
  return .default e

def description : Parser Clause := named .description do
  let text ← string
  return .description text

def property : Parser Clause := named .property do
  char '.'
  blanks
  let key ← ident
  blanks
  char '='
  blanks
  let e ← expr
  return .property key e

/-- A clause that every object declaration may have. -/
def objectClause : Parser Clause := indexSpec <|> description <|> property

/-! ## Statements -/

def makeStatement : Parser Draft := do
  let left ← left
  named .makeStatement do
    named .kwMake (lexeme (lexKeyword "make"))
    blanks
    let generator ← name
    blanks
    let args ← many (string <|> named .makeArg (lexeme lexArg))
    blanks
    char ';'
    return .make left generator args

def assignStatement : Parser Draft := do
  let left ← left
  named .assignStatement do
    let symbol ← name
    blanks
    char '='
    blanks
    let value ← expr
    blanks
    char ';'
    return .assign left symbol value

def variableStatement : Parser Draft := do
  let left ← left
  named .variableStatement do
    let typeName ← typeName
    blanks
    let access ← access
    blanks
    let symbol ← name
    blanks
    let clauses ← many (objectClause <|> defaultSpec)
    blanks
    char ';'
    return .variable left typeName access symbol clauses

/-- The size of an array in brackets, which may be left out. -/
def arraySize : Parser (Option DraftExpr) := named .arraySize do
  char '['
  blanks
  let size ← optional expr
  blanks
  char ']'
  return size

def arrayInit : Parser Clause := named .arrayInit do
  char '='
  blanks
  char '\x7b'
  blanks
  let items ← optional listExpr
  blanks
  char '\x7d'
  return .values (items.getD [])

def arrayStatement : Parser Draft := do
  let left ← left
  named .arrayStatement do
    let typeName ← typeName
    blanks
    let access ← access
    blanks
    let symbol ← name
    blanks
    let size ← arraySize
    blanks
    let before ← many objectClause
    blanks
    let values ← optional arrayInit
    blanks
    let after ← many objectClause
    blanks
    char ';'
    return .array left typeName access symbol size (before ++ values.toList ++ after)

def recordInstance : Parser (DraftExpr × String) := named .recordInstance do
  char '('
  blanks
  let index ← expr
  blanks
  char ','
  blanks
  let text ← string
  blanks
  char ')'
  return (index, text)

def fieldStatement : Parser DraftField := do
  let left ← left
  named .fieldStatement do
    let typeName ← typeName
    blanks
    let access ← access
    blanks
    let symbol ← ident
    blanks
    let clauses ← many (indexSpec <|> defaultSpec <|> description)
    blanks
    char ';'
    return { left, typeName, access, symbol, clauses }

def recordStatement : Parser Draft := do
  let left ← left
  named .recordStatement do
    named .kwRecord (lexeme (lexKeyword "record"))
    blanks
    let access ← access
    blanks
    let symbol ← name
    blanks
    let instances ← many recordInstance
    blanks
    let clauses ← many objectClause
    blanks
    char '\x7b'
    blanks
    let fields ← many fieldStatement
    blanks
    char '\x7d'
    blanks
    char ';'
    return .record left access symbol instances clauses fields

def statement : Parser Draft :=
  makeStatement <|> recordStatement <|> arrayStatement <|> variableStatement <|> assignStatement

def file : Parser (List Draft) := named .file do
  blanks
  let drafts ← many statement
  blanks
  named .endOfInput endOfText
  return drafts

/-! ## Whole texts -/

/-- The drafts of a text, or the furthest place that was reached and what was expected there. -/
def drafts (source : List Char) : Except Error (List Draft) :=
  match file source ⟨source.length, []⟩ with
  | (some (drafts, _), _) => .ok drafts
  | (none, frontier) =>
    .error (.parse (placeOf source frontier.left) (.expected frontier.rules))

/-- The syntax trees of a text. Clauses and literals are checked only once the whole text can be
read. -/
def parse (source : String) : Except Error (List Statement) := do
  let text := source.toList
  let drafts ← drafts text
  drafts.mapM (·.check text)

end EcatDevice.Source
