import PropertyGraph.Cypher.Lexical

/-!
Reading expressions, from the loosest operators to the tightest: `OR`, `XOR`, `AND`, `NOT`,
comparisons, sums, products, signs. What stands in brackets is read by a given reader, so the depth
of nesting is the only bound that the whole needs.
-/

namespace PropertyGraph.Cypher

/-- Words that cannot be names in expressions. -/
def reserved : List String :=
  ["MATCH", "WHERE", "CREATE", "SET", "DELETE", "DETACH", "RETURN", "ORDER", "BY", "SKIP",
    "LIMIT", "AS", "AND", "OR", "XOR", "NOT", "IN", "IS", "ASC", "DESC", "DISTINCT"]

def isReserved (name : String) : Bool :=
  reserved.any fun word => name.toList.map Char.toUpper == word.toList

def firstOf : List (Parser Bool × BinaryOperator) → Parser (Option BinaryOperator)
  | [] => return none
  | (try_, op) :: rest => do if ← try_ then return some op else firstOf rest

/-- Operands with operators of one level between them, grouped to the left. -/
def chainFrom (operator? : Parser (Option BinaryOperator)) (operand : Parser Expression)
    (left : Expression) : Nat → Parser Expression
  | 0 => return left
  | fuel + 1 => do
      match ← operator? with
      | some op => do
          let right ← operand
          chainFrom operator? operand (.binary left op right) fuel
      | none => return left

def chain (operators : List (Parser Bool × BinaryOperator)) (operand : Parser Expression) :
    Parser Expression := do
  let left ← operand
  chainFrom (firstOf operators) operand left ((← get).length + 1)

def mapKey : Parser String := do
  match ← string? with
  | some key => return key
  | none => name

def mapEntry (nested : Parser Expression) : Parser (String × Expression) := do
  let key ← mapKey
  expectChar ':'
  return (key, ← nested)

/-- The entries of a map behind its opening brace, and the closing one. -/
def mapEntries (nested : Parser Expression) : Parser (List (String × Expression)) := do
  if ← tryChar '}' then return []
  let entries ← separated (mapEntry nested)
  expectChar '}'
  return entries

def literals? : List Expression → Option (List Value)
  | [] => some []
  | e :: rest => do return (← e.literal?) :: (← literals? rest)

def listOf (items : List Expression) : Expression :=
  match literals? items with
  | some values => .literal (.list values)
  | none => .list items

def mapOf (entries : List (String × Expression)) : Expression :=
  match literals? (entries.map (·.2)) with
  | some values => .literal (.record ((entries.map (·.1)).zip values))
  | none => .map entries

def itemsUntil (close : Char) (nested : Parser Expression) : Parser (List Expression) := do
  if ← tryChar close then return []
  let items ← separated nested
  expectChar close
  return items

def parameter : Parser Expression := do
  let key ← name
  match Dictionary.get? key (← read).parameters with
  | some value => return .literal value
  | none => throw (.missingParameter key)

/-- A call behind its opening parenthesis. -/
def call (nested : Parser Expression) (name : String) : Parser Expression := do
  let name := String.ofList (Text.lowercase name.toList)
  if name == "count" then
    if ← tryChar '*' then
      expectChar ')'
      return .countAll
  let distinct ← tryKeyword "DISTINCT"
  return .call name distinct (← itemsUntil ')' nested)

/-- Names, calls and properties. -/
def named (nested : Parser Expression) : Parser Expression := do
  unless ← atName do
    throw (.expectedExpression (← position) (← snippet))
  let word ← name
  if isReserved word then throw (.unexpectedKeyword word)
  if ← tryChar '(' then return ← call nested word
  if ← tryChar '.' then return .property word (← name)
  return .reference word

def primary (nested : Parser Expression) : Parser Expression := do
  if ← tryChar '(' then
    let e ← nested
    expectChar ')'
    return e
  if ← tryChar '[' then return listOf (← itemsUntil ']' nested)
  if ← tryChar '{' then return mapOf (← mapEntries nested)
  if ← tryChar '$' then return ← parameter
  match ← string? with
  | some s => return .literal (.string s)
  | none =>
      if ← atDigit then return .literal (← number)
      if ← tryKeyword "TRUE" then return .literal (.bool true)
      if ← tryKeyword "FALSE" then return .literal (.bool false)
      if ← tryKeyword "NULL" then return .literal .null
      named nested

/-- The sign of a number belongs to the number. -/
def negated : Expression → Expression
  | .literal (.int i) => .literal (.int (-i))
  | .literal (.float x) => .literal (.float x.neg)
  | e => .negate e

def signed (operand : Parser Expression) : Nat → Parser Expression
  | 0 => operand
  | fuel + 1 => do
      if ← tryChar '-' then return negated (← signed operand fuel)
      if ← tryChar '+' then return ← signed operand fuel
      operand

def unary (nested : Parser Expression) : Parser Expression := do
  signed (primary nested) (← get).length

def product (nested : Parser Expression) : Parser Expression :=
  chain [(tryChar '*', .mul), (tryChar '/', .div), (tryChar '%', .mod)] (unary nested)

def sum (nested : Parser Expression) : Parser Expression :=
  chain [(tryChar '+', .add), (tryChar '-', .sub)] (product nested)

def tryKeywordWith (word : String) : Parser Bool := do
  if ← tryKeyword word then
    expectKeyword "WITH"
    return true
  return false

def comparisons : List (Parser Bool × BinaryOperator) :=
  [(tryMark ['<', '='], .le), (tryMark ['>', '='], .ge), (tryMark ['<', '>'], .ne),
    (tryMark ['!', '='], .ne), (tryChar '<', .lt), (tryChar '>', .gt), (tryChar '=', .eq),
    (tryKeyword "IN", .in_), (tryKeyword "CONTAINS", .contains),
    (tryKeywordWith "STARTS", .startsWith), (tryKeywordWith "ENDS", .endsWith)]

/-- At most one comparison; comparisons do not chain. -/
def comparison (nested : Parser Expression) : Parser Expression := do
  let left ← sum nested
  if ← tryKeyword "IS" then
    let negative ← tryKeyword "NOT"
    expectKeyword "NULL"
    return if negative then .isNotNull left else .isNull left
  match ← firstOf comparisons with
  | some op => return .binary left op (← sum nested)
  | none => return left

def negation (operand : Parser Expression) : Nat → Parser Expression
  | 0 => operand
  | fuel + 1 => do
      if ← tryKeyword "NOT" then return .not (← negation operand fuel)
      operand

def condition (nested : Parser Expression) : Parser Expression := do
  negation (comparison nested) (← get).length

def connected (nested : Parser Expression) : Parser Expression :=
  chain [(tryKeyword "OR", .or)]
    (chain [(tryKeyword "XOR", .xor)] (chain [(tryKeyword "AND", .and)] (condition nested)))

/-- An expression with so many levels of brackets at most. -/
def expressionWithin : Nat → Parser Expression
  | 0 => do throw (.expectedExpression (← position) (← snippet))
  | depth + 1 => connected (expressionWithin depth)

def expression : Parser Expression := do expressionWithin ((← get).length + 1)

end PropertyGraph.Cypher
