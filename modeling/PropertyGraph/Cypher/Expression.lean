import PropertyGraph.Value.Text

/-!
Expressions of queries. Parameters stand in them as literals.
-/

namespace PropertyGraph

inductive BinaryOperator where
  | or
  | xor
  | and
  | eq
  | ne
  | lt
  | le
  | gt
  | ge
  | in_
  | startsWith
  | endsWith
  | contains
  | add
  | sub
  | mul
  | div
  | mod
deriving DecidableEq

/-- Lists and maps of literals alone are literals themselves. -/
inductive Expression where
  | literal (v : Value)
  | reference (name : String)
  | property (owner key : String)
  | list (items : List Expression)
  | map (entries : List (String × Expression))
  | binary (left : Expression) (op : BinaryOperator) (right : Expression)
  | not (operand : Expression)
  | negate (operand : Expression)
  | isNull (operand : Expression)
  | isNotNull (operand : Expression)
  /-- The name is in lower case. -/
  | call (name : String) (distinct : Bool) (arguments : List Expression)
  | countAll

namespace BinaryOperator

def inspect : BinaryOperator → String
  | .or => "Or"
  | .xor => "Xor"
  | .and => "And"
  | .eq => "Eq"
  | .ne => "Ne"
  | .lt => "Lt"
  | .le => "Le"
  | .gt => "Gt"
  | .ge => "Ge"
  | .in_ => "In"
  | .startsWith => "StartsWith"
  | .endsWith => "EndsWith"
  | .contains => "Contains"
  | .add => "Add"
  | .sub => "Sub"
  | .mul => "Mul"
  | .div => "Div"
  | .mod => "Mod"

end BinaryOperator

namespace Expression

def literal? : Expression → Option Value
  | .literal v => some v
  | _ => none

def isAggregateName (name : String) : Bool :=
  ["count", "collect", "sum", "min", "max", "avg"].contains name

def isAggregate : Expression → Bool
  | .countAll => true
  | .call name _ _ => isAggregateName name
  | _ => false

mutual

def hasAggregate : Expression → Bool
  | .literal _ => false
  | .reference _ => false
  | .property _ _ => false
  | .list items => anyAggregate items
  | .map entries => entriesAggregate entries
  | .binary left _ right => left.hasAggregate || right.hasAggregate
  | .not operand => operand.hasAggregate
  | .negate operand => operand.hasAggregate
  | .isNull operand => operand.hasAggregate
  | .isNotNull operand => operand.hasAggregate
  | .call name _ arguments => isAggregateName name || anyAggregate arguments
  | .countAll => true

def anyAggregate : List Expression → Bool
  | [] => false
  | e :: rest => e.hasAggregate || anyAggregate rest

def entriesAggregate : List (String × Expression) → Bool
  | [] => false
  | entry :: rest => entryAggregate entry || entriesAggregate rest

def entryAggregate : String × Expression → Bool
  | (_, e) => e.hasAggregate

end

mutual

/-- A text that names every construct. -/
def inspect : Expression → String
  | .literal v => "Literal(" ++ v.inspect ++ ")"
  | .reference name => "Variable(" ++ Text.quoted name ++ ")"
  | .property owner key => "Property(" ++ Text.quoted owner ++ ", " ++ Text.quoted key ++ ")"
  | .list items => "List(" ++ Text.listed (inspects items) ++ ")"
  | .map entries => "Map(" ++ Text.listed (inspectEntries entries) ++ ")"
  | .binary left op right =>
      "Binary(" ++ left.inspect ++ ", " ++ op.inspect ++ ", " ++ right.inspect ++ ")"
  | .not operand => "Not(" ++ operand.inspect ++ ")"
  | .negate operand => "Negate(" ++ operand.inspect ++ ")"
  | .isNull operand => "IsNull(" ++ operand.inspect ++ ")"
  | .isNotNull operand => "IsNotNull(" ++ operand.inspect ++ ")"
  | .call name distinct arguments =>
      Text.record "Function" [("name", Text.quoted name), ("distinct", Text.ofBool distinct),
        ("args", Text.listed (inspects arguments))]
  | .countAll => "CountStar"

def inspects : List Expression → List String
  | [] => []
  | e :: rest => e.inspect :: inspects rest

def inspectEntries : List (String × Expression) → List String
  | [] => []
  | entry :: rest => inspectEntry entry :: inspectEntries rest

def inspectEntry : String × Expression → String
  | (key, e) => "(" ++ Text.quoted key ++ ", " ++ e.inspect ++ ")"

end

end Expression

end PropertyGraph
