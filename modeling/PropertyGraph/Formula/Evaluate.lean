import PropertyGraph.Dictionary
import PropertyGraph.Number.Arithmetic
import PropertyGraph.Number.Decimal
import PropertyGraph.Text.CharClass
import PropertyGraph.Value.Text

/-!
Arithmetic formulas: their tokens, the faults of reading one, and its variables, which are the names
that are no function directly before a parenthesis, in order of first appearance. The value of a
formula is found while reading it: sums of products of powers, powers grouping to the right and a
minus sign binding tightest. A fault is the first one from the left.
-/

namespace PropertyGraph.Formula

inductive Token where
  | number (x : Binary64)
  | name (s : String)
  | operator (c : Char)
  | open_
  | close
deriving DecidableEq

inductive Fault where
  | invalidNumber (text : String)
  | unexpectedCharacter (c : Char)
  | unexpectedToken (token : Option Token)
  | missingClose
  | unboundVariable (name : String)
  | trailingInput (formula : String)

def Token.inspect : Token → String
  | .number x => "Number(" ++ Text.ofFloat x ++ ")"
  | .name s => "Ident(" ++ Text.quoted s ++ ")"
  | .operator c => "Op(" ++ Text.quotedChar c ++ ")"
  | .open_ => "LParen"
  | .close => "RParen"

def inspectToken : Option Token → String
  | some token => "Some(" ++ token.inspect ++ ")"
  | none => "None"

def Fault.message : Fault → String
  | .invalidNumber text => "invalid number '" ++ text ++ "' in math()"
  | .unexpectedCharacter c => "unexpected character '" ++ String.ofList [c] ++ "' in math()"
  | .unexpectedToken token => "unexpected token " ++ inspectToken token ++ " in math()"
  | .missingClose => "expected ')' in math()"
  | .unboundVariable name => "unbound variable '" ++ name ++ "' in math()"
  | .trailingInput formula => "unexpected trailing input in math('" ++ formula ++ "')"

def isOperator (c : Char) : Bool := ['+', '-', '*', '/', '%', '^'].contains c

def isNumberPart (c : Char) : Bool := isDigit c || c = '.'

def isNamePart (c : Char) : Bool := Text.isLetterOrNumber c || c = '_'

def startsNumber : List Char → Bool
  | c :: d :: _ => isDigit c || (c = '.' && isDigit d)
  | [c] => isDigit c
  | [] => false

/-- Tokens of a text, with fuel for each. -/
def tokensFrom : Nat → List Char → Except Fault (List Token)
  | 0, _ => .ok []
  | _ + 1, [] => .ok []
  | fuel + 1, c :: rest =>
      if Text.isBlank c then tokensFrom fuel rest
      else if startsNumber (c :: rest) then
        let text := (c :: rest).takeWhile isNumberPart
        match Decimal.read? text with
        | some x => (.number x :: ·) <$> tokensFrom fuel ((c :: rest).dropWhile isNumberPart)
        | none => .error (.invalidNumber (String.ofList text))
      else if Text.isLetter c || c = '_' then
        let name := String.ofList (c :: rest.takeWhile isNamePart)
        (.name name :: ·) <$> tokensFrom fuel (rest.dropWhile isNamePart)
      else if isOperator c then (.operator c :: ·) <$> tokensFrom fuel rest
      else if c = '(' then (.open_ :: ·) <$> tokensFrom fuel rest
      else if c = ')' then (.close :: ·) <$> tokensFrom fuel rest
      else .error (.unexpectedCharacter c)

def tokens (formula : String) : Except Fault (List Token) :=
  tokensFrom formula.toList.length formula.toList

def isFunction (name : String) : Bool :=
  ["abs", "ceil", "floor", "sqrt", "exp", "log"].contains name

def variablesFrom (known : List String) : List Token → List String
  | [] => known
  | .name s :: .open_ :: rest =>
      variablesFrom (if isFunction s || known.contains s then known else known ++ [s]) rest
  | .name s :: rest => variablesFrom (if known.contains s then known else known ++ [s]) rest
  | _ :: rest => variablesFrom known rest

def variableNames (formula : String) : Except Fault (List String) := do
  return variablesFrom [] (← tokens formula)

abbrev Evaluation := List Token → Except Fault (Binary64 × List Token)

/-- Operands with operators of one level between them, grouped to the left. -/
def chainFrom (operators : List Char) (combine : Char → Binary64 → Binary64 → Binary64)
    (operand : Evaluation) (left : Binary64) : Nat → Evaluation
  | 0, tokens => .ok (left, tokens)
  | fuel + 1, .operator c :: rest =>
      if operators.contains c then do
        let (right, rest) ← operand rest
        chainFrom operators combine operand (combine c left right) fuel rest
      else .ok (left, .operator c :: rest)
  | _ + 1, tokens => .ok (left, tokens)

def chain (operators : List Char) (combine : Char → Binary64 → Binary64 → Binary64)
    (operand : Evaluation) : Evaluation := fun tokens => do
  let (first, rest) ← operand tokens
  chainFrom operators combine operand first rest.length rest

def close (value : Binary64) : List Token → Except Fault (Binary64 × List Token)
  | .close :: rest => .ok (value, rest)
  | _ => .error .missingClose

def call (name : String) (x : Binary64) : Binary64 :=
  if name == "abs" then x.abs
  else if name == "ceil" then x.ceil
  else if name == "floor" then x.floor
  else if name == "sqrt" then x.sqrt
  else if name == "exp" then x.exp
  else x.log

def lookup (bindings : Dictionary String Binary64) (name : String) : Except Fault Binary64 :=
  match Dictionary.get? name bindings with
  | some x => .ok x
  | none => .error (.unboundVariable name)

/-- Numbers, variables, calls and groups; `inner` evaluates what stands in parentheses. -/
def primary (bindings : Dictionary String Binary64) (inner : Evaluation) : Evaluation
  | .number x :: rest => .ok (x, rest)
  | .open_ :: rest => do
      let (value, rest) ← inner rest
      close value rest
  | .name s :: .open_ :: rest =>
      if isFunction s then do
        let (argument, rest) ← inner rest
        close (call s argument) rest
      else do return (← lookup bindings s, .open_ :: rest)
  | .name s :: rest => do return (← lookup bindings s, rest)
  | token :: _ => .error (.unexpectedToken (some token))
  | [] => .error (.unexpectedToken none)

def unary (operand : Evaluation) : Evaluation
  | .operator '-' :: rest => do
      let (value, rest) ← unary operand rest
      .ok (value.neg, rest)
  | tokens => operand tokens

def power (operand : Evaluation) : Nat → Evaluation
  | 0, tokens => operand tokens
  | fuel + 1, tokens => do
      let (base, rest) ← operand tokens
      match rest with
      | .operator '^' :: rest => do
          let (exponent, rest) ← power operand fuel rest
          .ok (base.pow exponent, rest)
      | rest => .ok (base, rest)

def combineSum (c : Char) (x y : Binary64) : Binary64 := if c = '+' then x.add y else x.sub y

def combineProduct (c : Char) (x y : Binary64) : Binary64 :=
  if c = '*' then x.mul y else if c = '/' then x.div y else x.rem y

def expression (bindings : Dictionary String Binary64) : Nat → Evaluation
  | 0 => fun tokens => .error (.unexpectedToken tokens.head?)
  | depth + 1 =>
      chain ['+', '-'] combineSum <|
        chain ['*', '/', '%'] combineProduct fun tokens =>
          power (unary (primary bindings (expression bindings depth))) tokens.length tokens

def evaluate (formula : String) (bindings : Dictionary String Binary64) :
    Except Fault Binary64 := do
  let found ← tokens formula
  let (value, rest) ← expression bindings (found.length + 1) found
  if rest.isEmpty then .ok value else .error (.trailingInput formula)

end PropertyGraph.Formula
