/-! # Rules of the grammar

The rules that a syntax error can name. The order of the constructors is the order in which a
message lists them.
-/

namespace EcatDevice

inductive Rule where
  | endOfInput
  | file
  | ident
  | name
  | wildName
  | typeName
  | hex
  | real
  | int
  | string
  | kwMake
  | kwRecord
  | accessKeyword
  | access
  | literal
  | refExpr
  | indexExpr
  | expr
  | wildRef
  | wildIndex
  | listItem
  | listExpr
  | indexSpec
  | defaultSpec
  | description
  | property
  | makeArg
  | makeStatement
  | assignStatement
  | variableStatement
  | arraySize
  | arrayInit
  | arrayStatement
  | recordInstance
  | fieldStatement
  | recordStatement
  deriving DecidableEq, Repr

namespace Rule

/-- All rules in message order, with the label under which a message names them. -/
def labels : List (Rule × String) := [
  (.endOfInput, "EOI"), (.file, "file"), (.ident, "ident"), (.name, "name"),
  (.wildName, "wild_name"), (.typeName, "type_name"), (.hex, "hex"), (.real, "real"),
  (.int, "int"), (.string, "string"), (.kwMake, "kw_make"), (.kwRecord, "kw_record"),
  (.accessKeyword, "access_kw"), (.access, "access"), (.literal, "literal"),
  (.refExpr, "ref_expr"), (.indexExpr, "idx_expr"), (.expr, "expr"), (.wildRef, "wild_ref"),
  (.wildIndex, "wild_idx"), (.listItem, "list_item"), (.listExpr, "list_expr"),
  (.indexSpec, "index_spec"), (.defaultSpec, "default_spec"), (.description, "description"),
  (.property, "property"), (.makeArg, "make_arg"), (.makeStatement, "make_stmt"),
  (.assignStatement, "assign_stmt"), (.variableStatement, "variable_stmt"),
  (.arraySize, "array_size"), (.arrayInit, "array_init"), (.arrayStatement, "array_stmt"),
  (.recordInstance, "record_instance"), (.fieldStatement, "sub_stmt"),
  (.recordStatement, "record_stmt")]

def labelsOf (rules : List Rule) : List String :=
  (labels.filter fun entry => rules.contains entry.1).map Prod.snd

/-- Joins labels as an enumeration: `a`, `a or b`, `a, b, or c`. -/
def enumerate : List String → String
  | [] => ""
  | [a] => a
  | [a, b] => a ++ " or " ++ b
  | labels =>
    String.intercalate ", " labels.dropLast ++ ", or " ++ labels.getLastD ""

end Rule

end EcatDevice
