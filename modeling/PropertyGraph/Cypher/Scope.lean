import PropertyGraph.Builder.Backend
import PropertyGraph.Cypher.Query

/-!
What names stand for while a query is turned into a script, and why a query may have no script.
-/

namespace PropertyGraph

inductive NameKind where
  | node
  | relationship
  /-- All edges along a path of variable length. -/
  | relationships
deriving DecidableEq

inductive CompileFault where
  | undefined (name : String)
  | declaredAsRelationship (name : String)
  | relationshipDeclared (name : String)
  | declared (name : String)
  | undirectedCreate
  | createWithoutType
  | createWithLabels
  | setOnPath (name : String)
  | propertyOfPath (name : String)
  | duplicateColumn (name : String)
  | unknownSortColumn (text : String)
  | nestedAggregate (text : String)
  | argumentCount (function : String)
  | aggregateOutsideReturn (function : String)
  | countAllOutsideReturn
  | unknownFunction (name : String)
  | membershipWithoutList
  | textWithoutLiteral
  | textWithoutProgram
  | notLive

namespace CompileFault

def quotedName (name : String) : String := "`" ++ name ++ "`"

def message : CompileFault → String
  | undefined name => "Variable " ++ quotedName name ++ " not defined"
  | declaredAsRelationship name =>
      "Variable " ++ quotedName name ++ " already declared as relationship"
  | relationshipDeclared name =>
      "Relationship variable " ++ quotedName name ++ " already declared"
  | declared name => "Variable " ++ quotedName name ++ " already declared"
  | undirectedCreate => "Only directed relationships are supported in CREATE"
  | createWithoutType => "A single relationship type must be specified for CREATE"
  | createWithLabels => "Multiple labels are not supported in CREATE"
  | setOnPath name =>
      "Cannot set a property on variable-length relationship " ++ quotedName name
  | propertyOfPath name => "Type mismatch: " ++ quotedName name ++ " is a list of relationships"
  | duplicateColumn name =>
      "Multiple result columns with the same name " ++ quotedName name ++ " are not supported"
  | unknownSortColumn text =>
      "ORDER BY " ++ quotedName text ++ " must refer to a returned column"
  | nestedAggregate text => "Aggregation inside " ++ quotedName text ++ " is not supported"
  | argumentCount function => function ++ "() expects exactly one argument"
  | aggregateOutsideReturn function =>
      "Aggregate function " ++ function ++ "() is only allowed in RETURN"
  | countAllOutsideReturn => "count(*) is only allowed in RETURN"
  | unknownFunction name => "Unknown function '" ++ name ++ "'"
  | membershipWithoutList => "IN is only supported with a literal list"
  | textWithoutLiteral => "String predicates are only supported with a literal string"
  | textWithoutProgram => "text translation has no program form"
  | notLive => "translation is not a live traversal"

end CompileFault

namespace Cypher

abbrev Bindings := Dictionary String NameKind

def kindOf (bindings : Bindings) (name : String) : Except CompileFault NameKind :=
  match Dictionary.get? name bindings with
  | some kind => .ok kind
  | none => .error (.undefined name)

/-- Operations of a script under construction. -/
abbrev Ops := List (Op Script)

structure Scope where
  bindings : Bindings
  /-- Some step produces traversers. -/
  started : Bool
  unnamed : Nat

def Scope.empty : Scope := ⟨[], false, 0⟩

/-- Writing of scripts for clauses that declare names. -/
abbrev Scripting := StateT Scope (Except CompileFault)

/-- The column names under which a relationship is projected. -/
def elementKey : String := "  cypher.element"

def targetKey : String := "  cypher.inv"

def sourceKey : String := "  cypher.outv"

end Cypher

end PropertyGraph
