import PropertyGraph.Proofs.Cypher.Rows
import PropertyGraph.Proofs.Cypher.Tokens

/-!
Printing expressions: every operator has a level, and parentheses stand only around an operand whose
level is too low for its place. Tokens are kept apart until the end.
-/

namespace PropertyGraph

namespace Cypher

abbrev Token := List Char

/-- Lists of tokens with commas between them. -/
def commas : List (List Token) → List Token
  | [] => []
  | [tokens] => tokens
  | tokens :: rest => tokens ++ [','] :: commas rest

/-- The text of tokens with a space between all of them. -/
def textOf (tokens : List Token) : String := Text.joined " " (tokens.map String.ofList)

theorem textOf_eq (tokens : List Token) : (textOf tokens).toList = (spaced tokens).tail := by
  induction tokens with
  | nil => rfl
  | cons token tokens ih =>
      cases tokens with
      | nil => simp [textOf, Text.joined]
      | cons second others =>
          have joined : textOf (token :: second :: others) =
              String.ofList token ++ " " ++ textOf (second :: others) := rfl
          rw [joined, String.toList_append, String.toList_append, ih]
          simp

/-- A key without quotes if it can do without. -/
def keyToken (key : String) : Token := if isBareName key then key.toList else quoted key

/-- Parentheses around what is of a lower level than its place asks for. -/
def enclosed (place own : Nat) (tokens : List Token) : List Token :=
  if own < place then ['('] :: tokens ++ [[')']] else tokens

end Cypher

open Cypher

namespace Value

mutual

/-- The tokens of a literal; only what stands in a text by itself has any. -/
def tokens : Value → List Token
  | .null => ["NULL".toList]
  | .bool b => [(if b then "TRUE" else "FALSE").toList]
  | .int i =>
      if i.toInt < 0 then [['-'], digitChars i.toInt.natAbs] else [digitChars i.toInt.natAbs]
  | .string s => [quoted s]
  | .list items => ['['] :: commas (tokensOfAll items) ++ [[']']]
  | .map entries => ['{'] :: commas (tokensOfEntries entries) ++ [['}']]
  | _ => []

def tokensOfAll : List Value → List (List Token)
  | [] => []
  | v :: rest => v.tokens :: tokensOfAll rest

def tokensOfEntries : List (Value × Value) → List (List Token)
  | [] => []
  | entry :: rest => tokensOfEntry entry :: tokensOfEntries rest

def tokensOfEntry : Value × Value → List Token
  | (key, v) => keyToken (key.string?.getD "") :: [':'] :: v.tokens

end

/-- A negative number is printed with its sign. -/
def isNegative : Value → Bool
  | .int i => i.toInt < 0
  | _ => false

end Value

namespace BinaryOperator

/-- From the loosest operators to the tightest. -/
def level : BinaryOperator → Nat
  | .or => 0
  | .xor => 1
  | .and => 2
  | .add | .sub => 5
  | .mul | .div | .mod => 6
  | _ => 4

/-- Operators of one level are grouped to the left, but comparisons are not grouped at all. -/
def leftPlace (op : BinaryOperator) : Nat := if op.level = 4 then 5 else op.level

def tokens : BinaryOperator → List Token
  | .or => ["OR".toList]
  | .xor => ["XOR".toList]
  | .and => ["AND".toList]
  | .eq => [['=']]
  | .ne => [['<', '>']]
  | .lt => [['<']]
  | .le => [['<', '=']]
  | .gt => [['>']]
  | .ge => [['>', '=']]
  | .in_ => ["IN".toList]
  | .startsWith => ["STARTS".toList, "WITH".toList]
  | .endsWith => ["ENDS".toList, "WITH".toList]
  | .contains => ["CONTAINS".toList]
  | .add => [['+']]
  | .sub => [['-']]
  | .mul => [['*']]
  | .div => [['/']]
  | .mod => [['%']]

end BinaryOperator

namespace Expression

/-- `NOT` is of level 3, `IS NULL` of the level of comparisons, a sign of level 7; names, literals
and calls are of level 8. -/
def level : Expression → Nat
  | .binary _ op _ => op.level
  | .not _ => 3
  | .isNull _ | .isNotNull _ => 4
  | .negate _ => 7
  | .literal v => if v.isNegative then 7 else 8
  | _ => 8

variable (spell : String → String)

mutual

/-- The tokens of an expression with the fewest parentheses. Functions are called by names in some
spelling. -/
def tokens : Expression → List Token
  | .literal v => v.tokens
  | .reference name => [name.toList]
  | .property owner key => [owner.toList, ['.'], key.toList]
  | .list items => ['['] :: commas (tokensOfAll items) ++ [[']']]
  | .map entries => ['{'] :: commas (tokensOfEntries entries) ++ [['}']]
  | .binary left op right =>
      enclosed op.leftPlace left.level (tokens left) ++ (op.tokens ++
        enclosed (op.level + 1) right.level (tokens right))
  | .not operand => "NOT".toList :: enclosed 3 operand.level (tokens operand)
  | .negate operand => ['-'] :: enclosed 7 operand.level (tokens operand)
  | .isNull operand =>
      enclosed 5 operand.level (tokens operand) ++ ["IS".toList, "NULL".toList]
  | .isNotNull operand =>
      enclosed 5 operand.level (tokens operand) ++ ["IS".toList, "NOT".toList, "NULL".toList]
  | .call name distinct arguments =>
      (spell name).toList :: ['('] :: (if distinct then ["DISTINCT".toList] else [])
        ++ (commas (tokensOfAll arguments) ++ [[')']])
  | .countAll => ["count".toList, ['('], ['*'], [')']]

def tokensOfAll : List Expression → List (List Token)
  | [] => []
  | e :: rest => tokens e :: tokensOfAll rest

def tokensOfEntries : List (String × Expression) → List (List Token)
  | [] => []
  | entry :: rest => tokensOfEntry entry :: tokensOfEntries rest

def tokensOfEntry : String × Expression → List Token
  | (key, e) => keyToken key :: [':'] :: tokens e

end

/-- The tokens of an operand. -/
def tokensAt (place : Nat) (e : Expression) : List Token :=
  enclosed place e.level (e.tokens spell)

/-- The text of an expression with the fewest parentheses and spaces between all tokens. -/
def printed (e : Expression) : String := textOf (e.tokens spell)

end Expression

namespace Value

/-- Neither floating-point numbers nor the least integer. -/
inductive Whole : Value → Prop
  | null : Whole .null
  | bool (b : Bool) : Whole (.bool b)
  | int (i : Int64) (greater : i ≠ Int64.minValue) : Whole (.int i)
  | string (s : String) : Whole (.string s)
  | list (items : List Value) (all : ∀ v ∈ items, v.Whole) : Whole (.list items)
  | map (entries : List (Value × Value)) (all : ∀ entry ∈ entries, entry.2.Whole) :
      Whole (.map entries)

/-- What a text can say: elements are not written, and the keys of maps are distinct texts. -/
inductive Written : Value → Prop
  | null : Written .null
  | bool (b : Bool) : Written (.bool b)
  | number (v : Value) (numeric : v.isNumber = true) : Written v
  | string (s : String) : Written (.string s)
  | list (items : List Value) (all : ∀ v ∈ items, v.Written) : Written (.list items)
  | map (entries : List (String × Value)) (distinct : (entries.map (·.1)).Nodup)
      (all : ∀ entry ∈ entries, entry.2.Written) : Written (.map (cells entries))

end Value

namespace Expression

/-- A spelling of the name of a function: without backticks, and no keyword. -/
structure Spells (spell : String → String) (name : String) : Prop where
  plain : isBareName (spell name) = true
  free : isReserved (spell name) = false
  other : isLiteralWord (spell name) = false
  same : String.ofList (Text.lowercase (spell name).toList) = name

/-- All names can be written without backticks, and are no keywords; there are neither
floating-point numbers nor the least integer. -/
inductive Plain (spell : String → String) : Expression → Prop
  | literal (v : Value) (whole : v.Whole) : Plain spell (.literal v)
  | reference (name : String) (plain : isBareName name = true)
      (other : isLiteralWord name = false) : Plain spell (.reference name)
  | property (owner key : String) (plain : isBareName owner = true)
      (other : isLiteralWord owner = false) (plainKey : isBareName key = true) :
      Plain spell (.property owner key)
  | list (items : List Expression) (all : ∀ e ∈ items, e.Plain spell) : Plain spell (.list items)
  | map (entries : List (String × Expression)) (all : ∀ entry ∈ entries, entry.2.Plain spell) :
      Plain spell (.map entries)
  | binary (left : Expression) (op : BinaryOperator) (right : Expression)
      (first : left.Plain spell) (second : right.Plain spell) : Plain spell (.binary left op right)
  | not (operand : Expression) (plain : operand.Plain spell) : Plain spell (.not operand)
  | negate (operand : Expression) (plain : operand.Plain spell) : Plain spell (.negate operand)
  | isNull (operand : Expression) (plain : operand.Plain spell) : Plain spell (.isNull operand)
  | isNotNull (operand : Expression) (plain : operand.Plain spell) :
      Plain spell (.isNotNull operand)
  | call (name : String) (distinct : Bool) (arguments : List Expression)
      (spelled : Spells spell name) (all : ∀ e ∈ arguments, e.Plain spell) :
      Plain spell (.call name distinct arguments)
  | countAll : Plain spell .countAll

/-- What is read from a text: names are not reserved, literals alone make literals, and the sign of
a number is its own. -/
inductive Normal : Expression → Prop
  | literal (v : Value) (written : v.Written) : Normal (.literal v)
  | reference (name : String) (free : isReserved name = false) : Normal (.reference name)
  | property (owner key : String) (free : isReserved owner = false) : Normal (.property owner key)
  | list (items : List Expression) (mixed : literals? items = none) (all : ∀ e ∈ items, e.Normal) :
      Normal (.list items)
  | map (entries : List (String × Expression)) (mixed : literals? (entries.map (·.2)) = none)
      (all : ∀ entry ∈ entries, entry.2.Normal) : Normal (.map entries)
  | binary (left : Expression) (op : BinaryOperator) (right : Expression) (first : left.Normal)
      (second : right.Normal) : Normal (.binary left op right)
  | not (operand : Expression) (normal : operand.Normal) : Normal (.not operand)
  | negate (operand : Expression) (unsigned : negated operand = .negate operand)
      (normal : operand.Normal) : Normal (.negate operand)
  | isNull (operand : Expression) (normal : operand.Normal) : Normal (.isNull operand)
  | isNotNull (operand : Expression) (normal : operand.Normal) : Normal (.isNotNull operand)
  | call (name : String) (distinct : Bool) (arguments : List Expression)
      (all : ∀ e ∈ arguments, e.Normal) : Normal (.call name distinct arguments)
  | countAll : Normal .countAll

end Expression

end PropertyGraph
