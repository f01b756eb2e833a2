import EcatDevice.Source.Lexeme
import EcatDevice.Source.Rule

/-! # Parsers

A parser reads a part of a text, or fails and leaves the text alone. Choices are tried in order and
repetitions take as much as they can. Besides its result a parser keeps the frontier: the furthest
place at which rules failed, and these rules. When the whole text cannot be read, the frontier is
what the message tells.
-/

namespace EcatDevice.Source

/-- The furthest place at which rules failed, and these rules in the order of their failures. -/
structure Frontier where
  /-- Number of characters from the place to the end of the text. -/
  left : Nat
  rules : List Rule
  deriving DecidableEq, Repr

namespace Frontier

/-- Number of rules that failed with so many characters left. -/
def height (frontier : Frontier) (left : Nat) : Nat :=
  if left = frontier.left then frontier.rules.length else 0

/-- The frontier after `rule` failed with `left` characters left. `before` is the height there when
the rule was tried. A rule stands for the rules it consists of, unless just one of them failed at
the same place: then that one says more. -/
def miss (frontier : Frontier) (rule : Rule) (left before : Nat) : Frontier :=
  if frontier.height left = before + 1 then frontier
  else if left = frontier.left then ⟨left, frontier.rules.take before ++ [rule]⟩
  else if left < frontier.left then ⟨left, [rule]⟩
  else frontier

end Frontier

/-- Reads an `α` from the front of a text: the value and the rest, or nothing. -/
def Parser (α : Type) := List Char → Frontier → Option (α × List Char) × Frontier

namespace Parser

variable {α β : Type}

protected def pure (a : α) : Parser α :=
  fun text frontier => (some (a, text), frontier)

protected def bind (p : Parser α) (f : α → Parser β) : Parser β :=
  fun text frontier =>
    match p text frontier with
    | (some (a, rest), frontier) => f a rest frontier
    | (none, frontier) => (none, frontier)

instance : Monad Parser where
  pure := Parser.pure
  bind := Parser.bind

/-- Reads with `p`, or, where that fails, with `q` from the same place. -/
protected def orElse (p : Parser α) (q : Unit → Parser α) : Parser α :=
  fun text frontier =>
    match p text frontier with
    | (none, frontier) => q () text frontier
    | read => read

instance : OrElse (Parser α) := ⟨Parser.orElse⟩

def lexeme (lexer : Lexer α) : Parser α :=
  fun text frontier => (lexer text, frontier)

/-- Reads with `p` under the name of a rule: a failure moves the frontier. -/
def named (rule : Rule) (p : Parser α) : Parser α :=
  fun text frontier =>
    match p text frontier with
    | (none, after) =>
      (none, after.miss rule text.length (frontier.height text.length))
    | read => read

def blanks : Parser Unit :=
  fun text frontier => (some ((), skipBlanks text), frontier)

def char (c : Char) : Parser Unit :=
  lexeme fun text =>
    match text with
    | d :: rest => if d = c then some ((), rest) else none
    | [] => none

def endOfText : Parser Unit :=
  lexeme fun text => if text.isEmpty then some ((), []) else none

def left : Parser Nat :=
  fun text frontier => (some (text.length, text), frontier)

def optional (p : Parser α) : Parser (Option α) :=
  (do let a ← p; return some a) <|> pure none

/-- Reads with `p` as often as it can, skipping blanks before each part. -/
def manyMore (p : Parser α) (text : List Char) (frontier : Frontier) :
    Option (List α × List Char) × Frontier :=
  match p (skipBlanks text) frontier with
  | (none, after) => (some ([], text), after)
  | (some (a, rest), after) =>
    if rest.length < text.length then
      match manyMore p rest after with
      | (some (as, last), final) => (some (a :: as, last), final)
      | (none, final) => (none, final)
    else (some ([a], rest), after)
termination_by text.length

/-- Reads with `p` as often as it can, skipping blanks between the parts. -/
def many (p : Parser α) : Parser (List α) :=
  (do
    let a ← p
    let as ← manyMore p
    return a :: as) <|> pure []

end Parser

end EcatDevice.Source
