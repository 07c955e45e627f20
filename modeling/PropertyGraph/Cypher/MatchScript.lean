import PropertyGraph.Cypher.ExpressionScript

/-!
Scripts of MATCH clauses: walks along the patterns that label what they find.
-/

namespace PropertyGraph.Cypher

namespace Scripting

def isBound (name : Option String) : Scripting Bool := do
  let scope ← get
  return name.any fun name => Dictionary.has name scope.bindings

def declare (kind : NameKind) (name : String) : Scripting Unit :=
  modify fun scope => { scope with bindings := Dictionary.put name kind scope.bindings }

def labelOps (name : Option String) : Ops := name.toList.map fun name => .labelled .as_ [name]

/-- Labels what was reached, if it has a name. -/
def bind? (name : Option String) (kind : NameKind) : Scripting Ops := do
  name.forM (declare kind)
  return labelOps name

def start : Scripting Unit := modify fun scope => { scope with started := true }

/-- A name that stands for one vertex. -/
def expectNode (name : String) : Scripting Unit := do
  unless (← kindOf (← get).bindings name) = .node do throw (.declaredAsRelationship name)

def value (e : Expression) : Scripting Script := do valueScript (← get).bindings e

end Scripting

open Scripting

/-- Keeps elements whose property equals an expression. -/
def propertyFilter (key : String) (e : Expression) : Scripting (Op Script) := do
  match e.literal? with
  | some v => return .has key (.eq v)
  | none =>
      let other ← value e
      return .nested .where_ [.of [.nested .union [.of [ownProperty key], other],
        .append .fold [], .apply .equals, isTrue]]

def propertyFilters (properties : List (String × Expression)) : Scripting Ops :=
  properties.mapM fun (key, e) => propertyFilter key e

def nodeConstraints (node : NodePattern) : Scripting Ops := do
  return (node.labels.map fun label => .hasLabel [label]) ++ (← propertyFilters node.properties)

def edgeStep (direction : Direction) (types : List String) : Op Script :=
  match direction with
  | .outgoing => .labelled .outE types
  | .incoming => .labelled .inE types
  | .both => .labelled .bothE types

def vertexStep : Direction → Op Script
  | .outgoing => .append .inV []
  | .incoming => .append .outV []
  | .both => .append .otherV []

/-- The loop that walks a path of variable length, vertex by new vertex. -/
def pathLoop (body : Ops) (range : PathLength) : Ops :=
  let loop := .nested .repeat_ [.of body]
  let emitted :=
    if range.min = 0 then [.append .emit [], loop]
    else [loop, .nested .emit [.of [.append .loops [], .is_ (.gte (.ofNat range.min))]]]
  emitted ++ (range.max.map .times).toList

def matchRelationship (r : RelationshipPattern) : Scripting Ops := do
  if ← isBound r.name then throw (.relationshipDeclared (r.name.getD ""))
  match r.length with
  | none =>
      let filters ← propertyFilters r.properties
      let bound ← bind? r.name .relationship
      return edgeStep r.direction r.types :: filters ++ bound ++ [vertexStep r.direction]
  | some range =>
      r.name.forM (declare .relationships)
      if range.max = some 0 then return []
      let filters ← propertyFilters r.properties
      return pathLoop (edgeStep r.direction r.types :: filters ++ labelOps r.name
        ++ [vertexStep r.direction, .append .simplePath []]) range

def matchStart (node : NodePattern) : Scripting Ops := do
  match node.name with
  | some name =>
      if ← isBound (some name) then
        expectNode name
        return .select [name] :: (← nodeConstraints node)
      else fresh
  | none => fresh
where
  fresh : Scripting Ops := do
    start
    let constraints ← nodeConstraints node
    return .vertices :: constraints ++ (← bind? node.name .node)

/-- A node at the end of a relationship; a node that is bound must be the same one. -/
def matchEnd (node : NodePattern) : Scripting Ops := do
  match node.name with
  | some name =>
      if ← isBound (some name) then
        expectNode name
        return (← nodeConstraints node) ++ [.append .where_ [.predicate (.eq (.string name))]]
      else fresh
  | none => fresh
where
  fresh : Scripting Ops := do
    let constraints ← nodeConstraints node
    return constraints ++ (← bind? node.name .node)

def matchChain : List (RelationshipPattern × NodePattern) → Scripting Ops
  | [] => return []
  | (relationship, node) :: rest => do
      let edge ← matchRelationship relationship
      let vertex ← matchEnd node
      return edge ++ vertex ++ (← matchChain rest)

def matchPath (p : PathPattern) : Scripting Ops := do
  let first ← matchStart p.start
  return first ++ (← matchChain p.chain)

def matchPaths : List PathPattern → Scripting Ops
  | [] => return []
  | p :: rest => do
      let path ← matchPath p
      return path ++ (← matchPaths rest)

def matchClause (m : MatchClause) : Scripting Ops := do
  let paths ← matchPaths m.patterns
  match m.condition with
  | none => return paths
  | some e => return paths ++ [.nested .where_ [← conditionScript (← get).bindings e]]

def matchClauses : List MatchClause → Scripting Ops
  | [] => return []
  | m :: rest => do
      let clause ← matchClause m
      return clause ++ (← matchClauses rest)

end PropertyGraph.Cypher
