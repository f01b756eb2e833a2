import EcatDevice.Access
import EcatDevice.Value

/-! # Lexemes

The smallest parts of a source text. A lexer reads one lexeme from the front of a text and returns
what it read with the rest; nothing is skipped inside a lexeme. Blanks and comments stand between
lexemes.
-/

namespace EcatDevice.Source

abbrev Lexer (α : Type) := List Char → Option (α × List Char)

/-! ## Character classes -/

/-- A letter, a digit or an underscore, within ASCII. -/
def isWordChar (c : Char) : Bool :=
  c.isAlphanum || c == '_'

/-- What a name or a type starts with: a letter or an underscore. -/
def isNameStart (c : Char) : Bool :=
  c.isAlpha || c == '_'

def isNameChar (c : Char) : Bool :=
  isWordChar c || c == '.'

def isWildcard (c : Char) : Bool :=
  c == '*' || c == '?'

def isHexDigit (c : Char) : Bool :=
  c.isDigit || ('a' ≤ c && c ≤ 'f') || ('A' ≤ c && c ≤ 'F')

def isArgChar (c : Char) : Bool :=
  c.isAlphanum || ":!@#$%^()=+[]\x7b\x7d<>_./\\-".toList.contains c

def isBlank (c : Char) : Bool :=
  c == ' ' || c == '\t' || c == '\r' || c == '\n'

/-! ## Blanks and comments -/

def afterBlock? : List Char → Option (List Char)
  | '*' :: '/' :: rest => some rest
  | _ :: rest => afterBlock? rest
  | [] => none

/-- The rest behind a comment. A block comment that is never closed is none. -/
def afterComment? : List Char → Option (List Char)
  | '/' :: '/' :: rest => some (rest.dropWhile (· != '\n'))
  | '/' :: '*' :: rest => afterBlock? rest
  | _ => none

theorem length_dropWhile_le (p : Char → Bool) (text : List Char) :
    (text.dropWhile p).length ≤ text.length :=
  (List.dropWhile_sublist p).length_le

theorem afterBlock?_length_lt {text rest : List Char} (h : afterBlock? text = some rest) :
    rest.length < text.length := by
  fun_induction afterBlock? text with
  | case1 =>
    cases h
    rw [List.length_cons, List.length_cons]
    omega
  | case2 _ _ _ ih => exact Nat.lt_succ_of_lt (ih h)
  | case3 => cases h

theorem afterComment?_length_lt {text rest : List Char} (h : afterComment? text = some rest) :
    rest.length < text.length := by
  fun_cases afterComment? text with
  | case1 tail =>
    cases h
    have shorter := length_dropWhile_le (· != '\n') tail
    rw [List.length_cons, List.length_cons]
    omega
  | case2 tail =>
    have shorter := afterBlock?_length_lt h
    rw [List.length_cons, List.length_cons]
    omega
  | case3 => simp_all [afterComment?]

def skipBlanks (text : List Char) : List Char :=
  match _h : afterComment? (text.dropWhile isBlank) with
  | some rest => skipBlanks rest
  | none => text.dropWhile isBlank
termination_by text.length
decreasing_by
  have := afterComment?_length_lt _h
  have := length_dropWhile_le isBlank text
  omega

/-! ## Words -/

def lexRun (p : Char → Bool) : Lexer String
  | text =>
    match text.takeWhile p with
    | [] => none
    | run => some (String.ofList run, text.dropWhile p)

/-- A run that starts with a character of one class and goes on with another. -/
def lexStarted (start continued : Char → Bool) : Lexer String
  | c :: rest =>
    if start c then
      some (String.ofList (c :: rest.takeWhile continued), rest.dropWhile continued)
    else none
  | [] => none

def lexIdent : Lexer String := lexStarted isNameStart isWordChar

def lexName : Lexer String := lexStarted isNameStart isNameChar

def lexWildName : Lexer String :=
  lexStarted (fun c => isNameStart c || isWildcard c) (fun c => isNameChar c || isWildcard c)

/-- A number of characters in parentheses, as the type of texts has it. -/
def lexWidth : Lexer String
  | '(' :: rest =>
    match lexRun Char.isDigit rest with
    | some (digits, ')' :: rest) => some ("(" ++ digits ++ ")", rest)
    | _ => none
  | _ => none

/-- A type name: an identifier, with a width in parentheses if one follows directly. -/
def lexTypeName : Lexer String
  | text => do
    let (ident, rest) ← lexIdent text
    match lexWidth rest with
    | some (width, rest) => some (ident ++ width, rest)
    | none => some (ident, rest)

/-- The given word, not followed by a word character. -/
def lexKeyword (word : String) : Lexer Unit
  | text => do
    let (run, rest) ← lexRun isWordChar text
    if run = word then some ((), rest) else none

def lexAccess : Lexer Access
  | text => do
    let (run, rest) ← lexRun isWordChar text
    let access ← Access.ofKeyword? run
    some (access, rest)

def lexArg : Lexer String := lexRun isArgChar

/-! ## Literals -/

def unescape (c : Char) : Char :=
  if c = 'n' then '\n' else if c = 't' then '\t' else c

/-- The text up to the closing quote, with its escapes resolved. -/
def lexStringBody : Lexer (List Char)
  | [] => none
  | '"' :: rest => some ([], rest)
  | '\\' :: c :: rest => (lexStringBody rest).map fun (body, rest) => (unescape c :: body, rest)
  | c :: rest => (lexStringBody rest).map fun (body, rest) => (c :: body, rest)

def lexString : Lexer String
  | '"' :: rest => (lexStringBody rest).map fun (body, rest) => (String.ofList body, rest)
  | _ => none

inductive Spelling where
  /-- hexadecimal digits, behind the marker as written -/
  | hex (marker : Char) (digits : String)
  /-- sign as written, and decimal digits -/
  | int (sign : String) (digits : String)
  /-- sign, whole part and fraction; mark and sign of the exponent, and its digits -/
  | real (sign whole fraction mark exponent : String)
  | str (text : String)
  deriving DecidableEq, Repr

def lexSign : List Char → String × List Char
  | '+' :: rest => ("+", rest)
  | '-' :: rest => ("-", rest)
  | rest => ("", rest)

def lexHex : Lexer Spelling
  | '0' :: marker :: rest =>
    if marker = 'x' ∨ marker = 'X' then
      (lexRun isHexDigit rest).map fun (digits, rest) => (.hex marker digits, rest)
    else none
  | _ => none

/-- The exponent of a real number, with its mark and sign. -/
def lexExponent : Lexer (String × String)
  | mark :: rest =>
    if mark = 'e' ∨ mark = 'E' then
      let (sign, rest) := lexSign rest
      (lexRun Char.isDigit rest).map fun (digits, rest) =>
        ((String.ofList [mark] ++ sign, digits), rest)
    else none
  | [] => none

/-- A real number: digits around a point, and an exponent if one follows. -/
def lexReal : Lexer Spelling
  | text => do
    let (sign, rest) := lexSign text
    let (whole, rest) ← lexRun Char.isDigit rest
    match rest with
    | '.' :: rest =>
      let (fraction, rest) ← lexRun Char.isDigit rest
      match lexExponent rest with
      | some ((mark, exponent), rest) => some (.real sign whole fraction mark exponent, rest)
      | none => some (.real sign whole fraction "" "", rest)
    | _ => none

def lexInt : Lexer Spelling
  | text => do
    let (sign, rest) := lexSign text
    let (digits, rest) ← lexRun Char.isDigit rest
    some (.int sign digits, rest)

def lexText : Lexer Spelling
  | text => (lexString text).map fun (body, rest) => (.str body, rest)

namespace Spelling

def integer? (n : Int) : Option Value :=
  if Int64.minValue.toInt ≤ n ∧ n ≤ Int64.maxValue.toInt then some (.int (Int64.ofInt n)) else none

/-- The value a spelling denotes, if there is one. Too large a real number is an infinity. -/
def value? : Spelling → Option Value
  | .hex _ digits => integer? (Text.readDigits 16 digits.toList)
  | .int sign digits =>
    let n := Text.readDigits 10 digits.toList
    integer? (if sign = "-" then -n else n)
  | .real sign whole fraction mark exponent =>
    let digits := whole.toList ++ fraction.toList
    let significant := digits.dropWhile (· == '0')
    let e : Int := Text.readDigits 10 exponent.toList
    let shift : Int := if mark.toList.contains '-' then -e else e
    some (.real (Real64.ofDecimal (sign = "-") (Text.readDigits 10 digits) significant.length
      (shift - fraction.length)))
  | .str text => some (.str text)

def written : Spelling → String
  | .hex marker digits => "0" ++ String.ofList [marker] ++ digits
  | .int sign digits => sign ++ digits
  | .real sign whole fraction mark exponent =>
    sign ++ whole ++ "." ++ fraction ++ mark ++ exponent
  | .str text => Text.quoted text

end Spelling

end EcatDevice.Source
