import EcatDevice.Error
import EcatDevice.Regex

/-! # Patterns of names

A pattern stands for all names it matches as a whole: a star matches any run of characters, a
question mark any one character, every other character itself. Patterns are matched by an engine for
regular expressions.
-/

namespace EcatDevice.Glob

def isPattern (name : String) : Bool :=
  name.toList.any fun c => c == '*' || c == '?'

def piece (engine : Regex.Engine) : Char → String
  | '*' => ".*"
  | '?' => "."
  | c => engine.escape (String.singleton c)

/-- The expression for a pattern, bound to both ends of the name. -/
def expression (engine : Regex.Engine) (pattern : String) : String :=
  "^" ++ String.join (pattern.toList.map (piece engine)) ++ "$"

/-- The test for the names that a pattern stands for, unless the engine refuses it. -/
def matcher (engine : Regex.Engine) (pattern : String) : Except Error (String → Bool) :=
  match engine.compile (expression engine pattern) with
  | .ok test => .ok test
  | .error reason => .error (.unsupported ("pattern " ++ pattern ++ ": " ++ reason))

end EcatDevice.Glob
