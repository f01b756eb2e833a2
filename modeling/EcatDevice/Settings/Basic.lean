import EcatDevice.Object.Basic

/-! # Settings

The configuration of a device: values by key, in the order of the keys.
-/

namespace EcatDevice

structure Settings where
  values : ValueMap := ∅

namespace Settings

def empty : Settings := {}

def get? (s : Settings) (key : String) : Option Value :=
  s.values[key]?

def contains (s : Settings) (key : String) : Bool :=
  s.values.contains key

/-- Gives a key a value, whatever it had. -/
def insert (s : Settings) (key : String) (value : Value) : Settings :=
  { values := s.values.insert key value }

/-- Gives a key a value unless it has one. -/
def setDefault (s : Settings) (key : String) (value : Value) : Settings :=
  if s.contains key then s else s.insert key value

def toList (s : Settings) : List (String × Value) :=
  s.values.toList

def size (s : Settings) : Nat :=
  s.values.size

/-- The settings of `s` with those of `other` over them. -/
def merge (s other : Settings) : Settings :=
  other.toList.foldl (fun s entry => s.insert entry.1 entry.2) s

/-- Settings from a list; the last value of a key counts. -/
def ofList (entries : List (String × Value)) : Settings :=
  entries.foldl (fun s entry => s.insert entry.1 entry.2) empty

/-- The entries of `s` that `earlier` lacks or has with another value. -/
def changes (s earlier : Settings) : List (String × Value) :=
  s.toList.filter fun (key, value) => !(earlier.get? key).any value.equals

def int (s : Settings) (key : String) : Except Error Int64 :=
  match s.get? key with
  | some (.int n) => .ok n
  | some other => .error (.typeMismatch key "integer" other.display)
  | none => .error (.undefinedSymbol key)

/-- The integer of a key, or `fallback` if the key has no value. -/
def intOr (s : Settings) (key : String) (fallback : Int64) : Except Error Int64 :=
  if s.contains key then s.int key else .ok fallback

def str? (s : Settings) (key : String) : Option String :=
  (s.get? key).bind Value.str?

def str (s : Settings) (key : String) : Except Error String :=
  match s.get? key with
  | some (.str text) => .ok text
  | some other => .error (.typeMismatch key "string" other.display)
  | none => .error (.undefinedSymbol key)

/-- Whether a switch is on; a missing one is off. -/
def flag (s : Settings) (key : String) : Bool :=
  match s.get? key with
  | some value => value.isTruthy
  | none => false

end Settings

end EcatDevice
