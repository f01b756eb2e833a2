import EcatDevice.Source.Location
import EcatDevice.Source.Rule
import EcatDevice.Text.Quoted

/-! # Errors

Everything that can stop a compilation or a make directive, as causes; `Error.message` is the one
place that words them.
-/

namespace EcatDevice

/-- What is wrong at a place of the source text. -/
inductive Problem where
  /-- no statement can be read; any of these rules would have let the reader go on -/
  | expected (rules : List Rule)
  /-- a clause that may stand once stands twice -/
  | repeated (clause : String)
  /-- a number that no value can hold -/
  | outOfRange (literal : String)
  deriving DecidableEq, Repr

def Problem.message : Problem → String
  | .expected rules => "expected " ++ Rule.enumerate (Rule.labelsOf rules)
  | .repeated clause => clause ++ " given more than once"
  | .outOfRange literal => "literal out of range: " ++ literal

inductive FileFault where
  | notFound
  | notDirectory
  | isDirectory
  | nameTooLong
  | nulInName
  /-- any other reason, in the system's words -/
  | other (reason : String)
  deriving DecidableEq, Repr

def FileFault.message : FileFault → String
  | .notFound => "No such file or directory (os error 2)"
  | .notDirectory => "Not a directory (os error 20)"
  | .isDirectory => "Is a directory (os error 21)"
  | .nameTooLong => "File name too long (os error 36)"
  | .nulInName => "file name contained an unexpected NUL byte"
  | .other reason => reason

inductive Error where
  | parse (place : Location) (problem : Problem)
  | undefinedSymbol (name : String)
  | unknownType (name : String)
  | arrayOversize (symbol : String) (expected actual : Nat)
  /-- the operand names something that has no such view -/
  | nonReferenceable (operand : String)
  /-- a field is too narrow for the value it should hold -/
  | layoutOverflow (field value : String)
  | io (path : String) (fault : FileFault)
  | invalidAccess (text : String)
  | subindexOrder (symbol : String) (subindex : Nat)
  | duplicateIndex (index : UInt16)
  | typeMismatch (context expected found : String)
  | unsupported (what : String)
  | unknownGenerator (name : String)
  deriving DecidableEq, Repr

def Error.message : Error → String
  | .parse place problem => "Parse error at " ++ place.display ++ ": " ++ problem.message
  | .undefinedSymbol name => "Undefined symbol: " ++ name
  | .unknownType name => "Unknown type: " ++ name
  | .arrayOversize symbol expected actual =>
    "Array " ++ symbol ++ ": declared size " ++ Text.decimal expected ++ " but "
      ++ Text.decimal actual ++ " values supplied"
  | .nonReferenceable operand => "Symbol " ++ operand ++ " cannot be referenced this way"
  | .layoutOverflow field value => "Layout overflow: " ++ field ++ " cannot hold " ++ value
  | .io path fault => "IO on " ++ path ++ ": " ++ fault.message
  | .invalidAccess text => "Invalid access string: " ++ Text.quoted text
  | .subindexOrder symbol subindex =>
    symbol ++ ": subindex " ++ Text.decimal subindex ++ " is not above the previous subindex"
  | .duplicateIndex index => "Duplicate object index 0x" ++ Text.hexFillUpper 4 index.toNat
  | .typeMismatch context expected found =>
    context ++ ": expected " ++ expected ++ ", found " ++ found
  | .unsupported what => "Unsupported: " ++ what
  | .unknownGenerator name => "Unknown generator: " ++ name

/-- A field that cannot hold an integer. -/
def Error.overflow (field : String) (value : Int) : Error :=
  .layoutOverflow field (Text.decimal value)

end EcatDevice
