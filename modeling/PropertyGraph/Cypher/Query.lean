import PropertyGraph.Cypher.Expression

/-!
Queries: patterns to match, patterns to create, properties to set, elements to delete, and columns
to return, in this order.
-/

namespace PropertyGraph

structure NodePattern where
  name : Option String
  labels : List String
  properties : List (String × Expression)

inductive Direction where
  | outgoing
  | incoming
  | both
deriving DecidableEq

/-- How many edges in a row; no upper bound if `max` is missing. -/
structure PathLength where
  min : Nat
  max : Option Nat
deriving DecidableEq

structure RelationshipPattern where
  name : Option String
  types : List String
  properties : List (String × Expression)
  direction : Direction
  length : Option PathLength

structure PathPattern where
  start : NodePattern
  chain : List (RelationshipPattern × NodePattern)

structure MatchClause where
  patterns : List PathPattern
  condition : Option Expression

structure SetItem where
  owner : String
  key : String
  value : Expression

structure DeleteClause where
  detach : Bool
  names : List String

structure ReturnItem where
  expression : Expression
  alias_ : Option String
  text : String

/-- Without an alias a column is named by its text. -/
def ReturnItem.column (item : ReturnItem) : String := item.alias_.getD item.text

structure SortItem where
  expression : Expression
  descending : Bool
  text : String

structure ReturnClause where
  distinct : Bool
  items : List ReturnItem
  order : List SortItem
  skip : Option Int64
  limit : Option Int64

structure Query where
  matches_ : List MatchClause
  create : List PathPattern
  set : List SetItem
  delete : Option DeleteClause
  return_ : Option ReturnClause

/-- A query that is run, or only explained. -/
structure Statement where
  explain : Bool
  query : Query

def Statement.options (s : Statement) : String := if s.explain then "[EXPLAIN]" else "[]"

end PropertyGraph
