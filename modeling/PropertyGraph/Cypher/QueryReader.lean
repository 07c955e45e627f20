import PropertyGraph.Cypher.ExpressionReader
import PropertyGraph.Cypher.Query

/-!
Reading whole queries. A query has at least one clause, and clauses come in a fixed order.
-/

namespace PropertyGraph

namespace Cypher

def keyword? {α : Type} (word : String) (item : Parser α) : Parser (Option α) := do
  if ← tryKeyword word then return some (← item) else return none

def optionalName : Parser (Option String) := do
  skipBlanks
  if ← atName then return some (← name) else return none

def label? : Parser (Option String) := do
  if ← tryChar ':' then return some (← name) else return none

def properties : Parser (List (String × Expression)) := do
  if ← tryChar '{' then mapEntries expression else return []

def nodePattern : Parser NodePattern := do
  expectChar '('
  let name ← optionalName
  let labels ← repeated label?
  let properties ← properties
  expectChar ')'
  return ⟨name, labels, properties⟩

def optionalLength : Parser (Option Nat) := do
  skipBlanks
  if ← atDigit then return some (← length) else return none

/-- The range behind its star. -/
def pathLength : Parser PathLength := do
  let least ← optionalLength
  if ← tryMark ['.', '.'] then
    let greatest ← optionalLength
    let least := least.getD 1
    if greatest.any (· < least) then throw (.invalidRange least (greatest.getD 0))
    return ⟨least, greatest⟩
  match least with
  | some n => return ⟨n, some n⟩
  | none => return ⟨1, none⟩

def anotherType? : Parser (Option String) := do
  if ← tryChar '|' then
    let _ ← tryChar ':'
    return some (← name)
  return none

def types : Parser (List String) := do
  if ← tryChar ':' then
    let first ← name
    return first :: (← repeated anotherType?)
  return []

def directionOf (left right : Bool) : Parser Direction :=
  match left, right with
  | false, true => return .outgoing
  | true, false => return .incoming
  | false, false => return .both
  | true, true => throw .bothDirections

/-- A pattern in the direction that its arrow turns out to have. -/
abbrev Undirected := Direction → RelationshipPattern

def relationshipBody : Parser Undirected := do
  let name ← optionalName
  let types ← types
  let length ← if ← tryChar '*' then some <$> pathLength else pure none
  let properties ← properties
  expectChar ']'
  return fun direction => ⟨name, types, properties, direction, length⟩

def relationshipPattern : Parser RelationshipPattern := do
  let left ← tryMark ['<', '-']
  unless left do expectChar '-'
  let body ← if ← tryChar '[' then relationshipBody
    else pure fun direction => ⟨none, [], [], direction, none⟩
  let right ← tryMark ['-', '>']
  unless right do expectChar '-'
  return body (← directionOf left right)

def chainLink? : Parser (Option (RelationshipPattern × NodePattern)) := do
  skipBlanks
  if (← peek).any fun c => c = '-' || c = '<' then
    let relationship ← relationshipPattern
    return some (relationship, ← nodePattern)
  return none

def pathPattern : Parser PathPattern := do
  let start ← nodePattern
  return ⟨start, ← repeated chainLink?⟩

def patterns : Parser (List PathPattern) := separated pathPattern

def matchClause? : Parser (Option MatchClause) :=
  keyword? "MATCH" do
    let patterns ← patterns
    return ⟨patterns, ← keyword? "WHERE" expression⟩

def setItem : Parser SetItem := do
  let owner ← name
  expectChar '.'
  let key ← name
  expectChar '='
  return ⟨owner, key, ← expression⟩

def deleteClause? : Parser (Option DeleteClause) := do
  let detach ← tryKeyword "DETACH"
  if detach then expectKeyword "DELETE"
  if detach then return some ⟨detach, ← separated name⟩
  keyword? "DELETE" do return ⟨false, ← separated name⟩

def returnItem : Parser ReturnItem := do
  let (expression, text) ← withText expression
  return ⟨expression, ← keyword? "AS" name, text⟩

def sortsDescending : Parser Bool := do
  if ← tryKeyword "DESCENDING" then return true
  if ← tryKeyword "DESC" then return true
  if ← tryKeyword "ASCENDING" then return false
  let _ ← tryKeyword "ASC"
  return false

def sortItem : Parser SortItem := do
  let (expression, text) ← withText expression
  return ⟨expression, ← sortsDescending, text⟩

/-- A count of rows: an integer or a parameter, not negative. -/
def rowCount (clause : String) : Parser Int64 := do
  match ← primary expression with
  | .literal (.int n) =>
      if 0 ≤ n.toInt then return n else throw (.expectedCount clause (.literal (.int n)))
  | other => throw (.expectedCount clause other)

def returnClause : Parser ReturnClause := do
  let distinct ← tryKeyword "DISTINCT"
  let items ← separated returnItem
  let order ← keyword? "ORDER" do
    expectKeyword "BY"
    separated sortItem
  let skip ← keyword? "SKIP" (rowCount "SKIP")
  let limit ← keyword? "LIMIT" (rowCount "LIMIT")
  return ⟨distinct, items, order.getD [], skip, limit⟩

def Query.isEmpty (q : Query) : Bool :=
  q.matches_.isEmpty && q.create.isEmpty && q.set.isEmpty && q.delete.isNone && q.return_.isNone

def query : Parser Query := do
  let matches_ ← repeated matchClause?
  let create ← keyword? "CREATE" patterns
  let set ← keyword? "SET" (separated setItem)
  let delete ← deleteClause?
  let return_ ← keyword? "RETURN" returnClause
  let found : Query := ⟨matches_, create.getD [], set.getD [], delete, return_⟩
  if Query.isEmpty found then throw (.expectedClause (← snippet))
  return found

def statement : Parser Statement := do
  let explain ← tryKeyword "EXPLAIN"
  let query ← query
  let _ ← tryChar ';'
  skipBlanks
  unless (← get).isEmpty do throw (.unexpectedInput (← position) (← snippet))
  return ⟨explain, query⟩

end Cypher

def Statement.parse (text : String) (parameters : Properties) : Except ParseFault Statement := do
  let chars := text.toList
  let (statement, _) ← Cypher.statement.run ⟨Text.byteLength chars, parameters⟩ |>.run chars
  return statement

end PropertyGraph
