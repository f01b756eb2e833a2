import EcatDevice.Value

/-! # JSON text

JSON trees whose members keep the order in which they are written, and their two texts: one without
any blanks, and one indented by two blanks a level.
-/

namespace EcatDevice

inductive Json where
  | null
  | bool (b : Bool)
  | int (n : Int)
  | real (x : Real64)
  | str (s : String)
  | arr (items : List Json)
  | obj (members : List (String × Json))
  deriving Inhabited

namespace Json

/-- Reals from `1e-5` up to `1e16` are positional with at least one decimal, the others have an
exponent; what is no finite number is `null`. -/
def realStyle : RealStyle :=
  { tie := .even, point := true, isPositional := fun e => -5 ≤ e && e < 16, nan := "null",
    infinity := fun _ => "null" }

def quotedChar (c : Char) : List Char :=
  if c = '"' then ['\\', '"']
  else if c = '\\' then ['\\', '\\']
  else if c = '\x08' then ['\\', 'b']
  else if c = '\x0c' then ['\\', 'f']
  else if c = '\n' then ['\\', 'n']
  else if c = '\r' then ['\\', 'r']
  else if c = '\t' then ['\\', 't']
  else if c.toNat < 0x20 then ['\\', 'u'] ++ (Text.hexFill 4 c.toNat).toList
  else [c]

def quoted (s : String) : String :=
  String.ofList (['"'] ++ s.toList.flatMap quotedChar ++ ['"'])

def scalar : Json → String
  | .null => "null"
  | .bool b => if b then "true" else "false"
  | .int n => Text.decimal n
  | .real x => x.write realStyle
  | .str s => quoted s
  | .arr _ => "[]"
  | .obj _ => "\x7b\x7d"

mutual

def compact : Json → String
  | .arr items => "[" ++ String.intercalate "," (compactItems items) ++ "]"
  | .obj members => "\x7b" ++ String.intercalate "," (compactMembers members) ++ "\x7d"
  | other => other.scalar

def compactItems : List Json → List String
  | [] => []
  | item :: rest => item.compact :: compactItems rest

def compactMembers : List (String × Json) → List String
  | [] => []
  | (key, value) :: rest => (quoted key ++ ":" ++ value.compact) :: compactMembers rest

end

def lineBreak (level : Nat) : String :=
  "\n" ++ String.ofList (List.replicate (2 * level) ' ')

/-- Puts the texts of parts on lines of their own between two brackets. -/
def layOut (opening closing : String) (level : Nat) (parts : List String) : String :=
  match parts with
  | [] => opening ++ closing
  | parts =>
    opening ++ lineBreak (level + 1) ++ String.intercalate ("," ++ lineBreak (level + 1)) parts
      ++ lineBreak level ++ closing

mutual

/-- Indented text of a tree that stands at the given level. -/
def prettyAt (level : Nat) : Json → String
  | .arr items => layOut "[" "]" level (prettyItems (level + 1) items)
  | .obj members => layOut "\x7b" "\x7d" level (prettyMembers (level + 1) members)
  | other => other.scalar

def prettyItems (level : Nat) : List Json → List String
  | [] => []
  | item :: rest => item.prettyAt level :: prettyItems level rest

def prettyMembers (level : Nat) : List (String × Json) → List String
  | [] => []
  | (key, value) :: rest =>
    (quoted key ++ ": " ++ value.prettyAt level) :: prettyMembers level rest

end

def pretty (json : Json) : String :=
  json.prettyAt 0

end Json

def Value.toJson : Value → Json
  | .int n => .int n.toInt
  | .real x => .real x
  | .str s => .str s

end EcatDevice
