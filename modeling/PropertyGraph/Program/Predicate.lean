import PropertyGraph.Value.Text

/-!
Predicates over one value. Two numbers are equal if their values are, any other two values if they
are the same; the orderings hold only between two numbers, two known texts or two booleans.
-/

namespace PropertyGraph

inductive Predicate where
  | eq (v : Value)
  | neq (v : Value)
  | lt (v : Value)
  | lte (v : Value)
  | gt (v : Value)
  | gte (v : Value)
  | within (vs : List Value)
  | without (vs : List Value)
  /-- The lower bound belongs to the range, the upper one does not. -/
  | between (low high : Value)
  | startingWith (s : String)
  | endingWith (s : String)
  | containing (s : String)
  | and (a b : Predicate)
  | or (a b : Predicate)
  | not (a : Predicate)
deriving DecidableEq

namespace Predicate

def comparison? : Value → Value → Option Ordering
  | .int a, .int b => some (compare a.toInt b.toInt)
  | .int a, .float b => (Binary64.ofInt a.toInt).partialCompare b
  | .float a, .int b => a.partialCompare (Binary64.ofInt b.toInt)
  | .float a, .float b => a.partialCompare b
  | .string a, .string b =>
      if a == Value.nullText || b == Value.nullText then none else some (compare a b)
  | .bool a, .bool b => some (compare a b)
  | _, _ => none

def looselyEqual (a b : Value) : Bool :=
  if a.isNumber && b.isNumber then comparison? a b == some .eq else a == b

def isInfix (part : List Char) : List Char → Bool
  | [] => part.isEmpty
  | c :: rest => part.isPrefixOf (c :: rest) || isInfix part rest

def ofText (value : Value) (holds : List Char → Bool) : Bool :=
  match value with
  | .string s => holds s.toList
  | _ => false

def test : Predicate → Value → Bool
  | .eq v, value => looselyEqual value v
  | .neq v, value => !looselyEqual value v
  | .lt v, value => comparison? value v == some .lt
  | .lte v, value => comparison? value v == some .lt || comparison? value v == some .eq
  | .gt v, value => comparison? value v == some .gt
  | .gte v, value => comparison? value v == some .gt || comparison? value v == some .eq
  | .within vs, value => vs.any (looselyEqual value)
  | .without vs, value => !vs.any (looselyEqual value)
  | .between low high, value =>
      (comparison? value low == some .gt || comparison? value low == some .eq)
        && comparison? value high == some .lt
  | .startingWith s, value => ofText value s.toList.isPrefixOf
  | .endingWith s, value => ofText value s.toList.isSuffixOf
  | .containing s, value => ofText value (isInfix s.toList)
  | .and a b, value => a.test value && b.test value
  | .or a b, value => a.test value || b.test value
  | .not a, value => !a.test value

def mapValues (f : Value → Value) : Predicate → Predicate
  | .eq v => .eq (f v)
  | .neq v => .neq (f v)
  | .lt v => .lt (f v)
  | .lte v => .lte (f v)
  | .gt v => .gt (f v)
  | .gte v => .gte (f v)
  | .within vs => .within (vs.map f)
  | .without vs => .without (vs.map f)
  | .between low high => .between (f low) (f high)
  | .startingWith s => .startingWith s
  | .endingWith s => .endingWith s
  | .containing s => .containing s
  | .and a b => .and (a.mapValues f) (b.mapValues f)
  | .or a b => .or (a.mapValues f) (b.mapValues f)
  | .not a => .not (a.mapValues f)

def name : Predicate → String
  | .eq _ => "eq"
  | .neq _ => "neq"
  | .lt _ => "lt"
  | .lte _ => "lte"
  | .gt _ => "gt"
  | .gte _ => "gte"
  | .within _ => "within"
  | .without _ => "without"
  | .between _ _ => "between"
  | .startingWith _ => "startingWith"
  | .endingWith _ => "endingWith"
  | .containing _ => "containing"
  | .and _ _ => "and"
  | .or _ _ => "or"
  | .not _ => "not"

def isText : Predicate → Bool
  | .startingWith _ => true
  | .endingWith _ => true
  | .containing _ => true
  | _ => false

def call (name : String) (arguments : List String) : String :=
  name ++ "(" ++ Text.joined ", " arguments ++ ")"

def text (p : Predicate) : String :=
  match p with
  | .eq v | .neq v | .lt v | .lte v | .gt v | .gte v => call p.name [v.text]
  | .within vs | .without vs => call p.name [(Value.list vs).text]
  | .between low high => call p.name [low.text, high.text]
  | .startingWith s | .endingWith s | .containing s => call p.name [s]
  | .and a b | .or a b => call p.name [a.text, b.text]
  | .not a => call p.name [a.text]

end Predicate

end PropertyGraph
