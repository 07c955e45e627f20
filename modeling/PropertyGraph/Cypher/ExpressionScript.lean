import PropertyGraph.Cypher.Scope

/-!
Scripts of expressions. The script of an expression as a value leads every traverser to exactly one
value, the unknown value included. The script of a condition lets a traverser pass if the
condition is true.
-/

namespace PropertyGraph.Cypher

def literalValue (v : Value) : Value := if v.isNull then Value.unknown else v

/-- A property of the current element, unknown where it is absent. -/
def ownProperty (key : String) : Op Script :=
  .nested .coalesce [.of [.labelled .values [key]], .of [.constant Value.unknown]]

def pairwise (f : Function) (left right : Ops) : Ops :=
  [.nested .union [.of left, .of right], .append .fold [], .apply f]

def isKnown : Op Script := .is_ (.neq Value.unknown)

def isUnknown : Op Script := .is_ (.eq Value.unknown)

def isTrue : Op Script := .is_ (.eq (.bool true))

def isFalse : Op Script := .is_ (.eq (.bool false))

def choice (condition yes no : Ops) : Op Script :=
  .nested .choose [.of condition, .of yes, .of no]

/-- Whether a condition lets the traverser pass, as a value. -/
def truthOf (condition : Ops) : Op Script :=
  choice condition [.constant (.bool true)] [.constant (.bool false)]

def comparison? : BinaryOperator → Option Function
  | .eq => some .equals
  | .ne => some .notEquals
  | .lt => some .less
  | .le => some .lessOrEqual
  | .gt => some .greater
  | .ge => some .greaterOrEqual
  | _ => none

/-- The function of an operator that has one; the others test for membership. -/
def function? : BinaryOperator → Option Function
  | .add => some .plus
  | .sub => some .minus
  | .mul => some .multiply
  | .div => some .divide
  | .mod => some .modulo
  | .and => some .and
  | .or => some .or
  | .xor => some .xor
  | op => comparison? op

def textOperand (e : Expression) : Except CompileFault String :=
  match e.literal? with
  | some (.string s) => .ok s
  | _ => .error .textWithoutLiteral

/-- The predicate of a test for membership in a list or a text. -/
def membership (op : BinaryOperator) (right : Expression) : Except CompileFault Predicate :=
  match op with
  | .startsWith => .startingWith <$> textOperand right
  | .endsWith => .endingWith <$> textOperand right
  | .contains => .containing <$> textOperand right
  | _ =>
      match right.literal? with
      | some (.list items) => .ok (.within items)
      | _ => .error .membershipWithoutList

/-- The steps of a scalar function behind its argument. -/
def scalar (name : String) : Except CompileFault Ops :=
  match name with
  | "id" => .ok [.append .id []]
  | "type" => .ok [.append .label []]
  | "labels" => .ok [.append .label [], .append .fold []]
  | "keys" => .ok [.labelled .properties [], .append .key [], .append .fold []]
  | "tostring" => .ok [.apply .toString]
  | "tointeger" => .ok [.apply .toInteger]
  | "tofloat" => .ok [.apply .toFloat]
  | "toboolean" => .ok [.apply .toBoolean]
  | "size" => .ok [.apply .size]
  | other => .error (.unknownFunction other)

mutual

def valueOps (b : Bindings) : Expression → Except CompileFault Ops
  | .literal v => .ok [.constant (literalValue v)]
  | .reference name => do
      match ← kindOf b name with
      | .relationships => return [.selectLabel .all name]
      | _ => return [.select [name]]
  | .property owner key => do
      if (← kindOf b owner) = .relationships then throw (.propertyOfPath owner)
      return [.select [owner], ownProperty key]
  | .list items => do
      return [.nested .union (← valueScripts b items), .append .fold []]
  | .map entries => do
      let values ← entryScripts b entries
      return .project (entries.map (·.1)) :: values.map fun value => .nested .by_ [value]
  | .binary left op right =>
      match function? op with
      | some f => do
          let left ← valueOps b left
          return pairwise f left (← valueOps b right)
      | none => do
          let operand ← valueOps b left
          let p ← membership op right
          return [choice (operand ++ [isUnknown]) [.constant Value.unknown]
            [truthOf (operand ++ [isKnown, .is_ p])]]
  | .not operand => do return (← valueOps b operand) ++ [.apply .not]
  | .negate operand => do return pairwise .minus [.constant (.int 0)] (← valueOps b operand)
  | .isNull operand => do return [truthOf ((← valueOps b operand) ++ [isUnknown])]
  | .isNotNull operand => do return [truthOf ((← valueOps b operand) ++ [isKnown])]
  | .call name _ arguments =>
      if Expression.isAggregateName name then .error (.aggregateOutsideReturn name)
      else
        match arguments with
        | [argument] => do
            let operand ← valueOps b argument
            return operand ++ (← scalar name)
        | _ => .error (.argumentCount name)
  | .countAll => .error .countAllOutsideReturn

def valueScripts (b : Bindings) : List Expression → Except CompileFault (List Script)
  | [] => .ok []
  | e :: rest => do
      let script ← .of <$> valueOps b e
      return script :: (← valueScripts b rest)

def entryScripts (b : Bindings) :
    List (String × Expression) → Except CompileFault (List Script)
  | [] => .ok []
  | entry :: rest => do
      let script ← entryScript b entry
      return script :: (← entryScripts b rest)

def entryScript (b : Bindings) : String × Expression → Except CompileFault Script
  | (_, e) => .of <$> valueOps b e

end

def valueScript (b : Bindings) (e : Expression) : Except CompileFault Script :=
  .of <$> valueOps b e

def comparisonPredicate (op : BinaryOperator) (v : Value) : Predicate :=
  match op with
  | .ne => .neq v
  | .lt => .lt v
  | .le => .lte v
  | .gt => .gt v
  | .ge => .gte v
  | _ => .eq v

/-- The operator that holds when the operands change places. -/
def flipped : BinaryOperator → BinaryOperator
  | .lt => .gt
  | .le => .ge
  | .gt => .lt
  | .ge => .le
  | op => op

/-- A literal that is known. -/
def constant? (e : Expression) : Option Value :=
  match e.literal? with
  | some v => if v.isNull then none else some v
  | none => none

/-- A comparison; with a constant on one side only the other side is computed. -/
def comparisonOps (b : Bindings) (op : BinaryOperator) (f : Function) (left right : Expression) :
    Except CompileFault Ops :=
  match left.literal?, constant? right, constant? left, right.literal? with
  | none, some v, _, _ => do
      return (← valueOps b left) ++ [isKnown, .is_ (comparisonPredicate op v)]
  | _, _, some v, none => do
      return (← valueOps b right) ++ [isKnown, .is_ (comparisonPredicate (flipped op) v)]
  | _, _, _, _ => do
      let left ← valueOps b left
      return pairwise f left (← valueOps b right) ++ [isTrue]

def conditionOps (b : Bindings) : Expression → Except CompileFault Ops
  | .binary left .and right => do
      let left ← conditionOps b left
      return [.nested .and [.of left, .of (← conditionOps b right)]]
  | .binary left .or right => do
      let left ← conditionOps b left
      return [.nested .or [.of left, .of (← conditionOps b right)]]
  | .binary left op right =>
      match comparison? op, function? op with
      | some f, _ => comparisonOps b op f left right
      | none, none => do
          let p ← membership op right
          return (← valueOps b left) ++ [isKnown, .is_ p]
      | none, some _ => do return (← valueOps b (.binary left op right)) ++ [isTrue]
  | .not operand => do return (← valueOps b operand) ++ [isFalse]
  | .isNull operand => do return (← valueOps b operand) ++ [isUnknown]
  | .isNotNull operand => do return (← valueOps b operand) ++ [isKnown]
  | .literal (.bool true) => .ok [.append .identity []]
  | .literal (.bool false) => .ok [.limit 0]
  | .literal .null => .ok [.limit 0]
  | e => do return (← valueOps b e) ++ [isTrue]

def conditionScript (b : Bindings) (e : Expression) : Except CompileFault Script :=
  .of <$> conditionOps b e

end PropertyGraph.Cypher
