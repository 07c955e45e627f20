import PropertyGraph.Cypher.MatchScript

/-!
Scripts of clauses that change the graph.
-/

namespace PropertyGraph.Cypher

open Scripting

/-- A written property; vertices hold it as a single value, edges have no choice. -/
def writeOps (single : Bool) (key : String) (value : Slot Script) : Op Script :=
  if single then .append .property [.cardinality .single, .label key, value]
  else .append .property [.label key, value]

/-- The properties of a new element; null is not written. -/
def newProperties (single : Bool) : List (String × Expression) → Scripting Ops
  | [] => return []
  | (key, e) :: rest => do
      let op ← match e.literal? with
        | some v => pure (if v.isNull then [] else [writeOps single key (.literal v)])
        | none => do pure [writeOps single key (.builder (← value e))]
      return op ++ (← newProperties single rest)

def unnamedLabel (n : Nat) : String := "  UNNAMED" ++ natText n

/-- A label for a new vertex: its name, or one that no name can be. -/
def newLabel (name : Option String) : Scripting String := do
  match name with
  | some name => return name
  | none =>
      modify fun scope => { scope with unnamed := scope.unnamed + 1 }
      return unnamedLabel (← get).unnamed

def addVertexOp (labels : List String) : Except CompileFault (Op Script) :=
  match labels with
  | [] => .ok (.addVertex none)
  | [label] => .ok (.addVertex (some label))
  | _ => .error .createWithLabels

/-- Creates a node that is not bound, and finds the label of either kind. -/
def createNode (node : NodePattern) : Scripting (String × Ops) := do
  if ← isBound node.name then
    let name := node.name.getD ""
    unless node.labels.isEmpty && node.properties.isEmpty do throw (.declared name)
    expectNode name
    return (name, [])
  else
    let add ← addVertexOp node.labels
    start
    let properties ← newProperties true node.properties
    let label ← newLabel node.name
    node.name.forM (declare .node)
    return (label, add :: properties ++ [.labelled .as_ [label]])

def createNodes : List NodePattern → Scripting (List String × Ops)
  | [] => return ([], [])
  | node :: rest => do
      let (label, ops) ← createNode node
      let (labels, more) ← createNodes rest
      return (label :: labels, ops ++ more)

def createRelationship (left right : String) (r : RelationshipPattern) : Scripting Ops := do
  let (source, target) ← match r.direction with
    | .outgoing => pure (left, right)
    | .incoming => pure (right, left)
    | .both => throw .undirectedCreate
  match r.types, r.length with
  | [label], none =>
      if ← isBound r.name then throw (.declared (r.name.getD ""))
      let properties ← newProperties false r.properties
      let bound ← bind? r.name .relationship
      return [.labelled .addE [label], .labelled .from_ [source], .labelled .to_ [target]]
        ++ properties ++ bound
  | _, _ => throw .createWithoutType

/-- The relationships of a path between the labels of its nodes. -/
def createChain : List String → List (RelationshipPattern × NodePattern) → Scripting Ops
  | left :: right :: labels, (r, _) :: rest => do
      let ops ← createRelationship left right r
      return ops ++ (← createChain (right :: labels) rest)
  | _, _ => return []

def createPathNodes : List PathPattern → Scripting (List (List String × PathPattern) × Ops)
  | [] => return ([], [])
  | p :: rest => do
      let (labels, ops) ← createNodes (p.start :: p.chain.map (·.2))
      let (paths, more) ← createPathNodes rest
      return ((labels, p) :: paths, ops ++ more)

def createPathEdges : List (List String × PathPattern) → Scripting Ops
  | [] => return []
  | (labels, p) :: rest => do
      let ops ← createChain labels p.chain
      return ops ++ (← createPathEdges rest)

/-- All nodes come before all relationships. -/
def createPaths (paths : List PathPattern) : Scripting Ops := do
  let (labelled, nodes) ← createPathNodes paths
  return nodes ++ (← createPathEdges labelled)

def setOps (b : Bindings) (item : SetItem) : Except CompileFault (Op Script) := do
  let single ← match ← kindOf b item.owner with
    | .node => pure true
    | .relationship => pure false
    | .relationships => throw (.setOnPath item.owner)
  let value ← match item.value.literal? with
    | some v => pure (.literal (literalValue v))
    | none => .builder <$> valueScript b item.value
  return .nested .sideEffect [.of [.select [item.owner], writeOps single item.key value]]

def setAll (b : Bindings) : List SetItem → Except CompileFault Ops
  | [] => return []
  | item :: rest => do
      let op ← setOps b item
      return op :: (← setAll b rest)

def kindsOf (b : Bindings) : List String → Except CompileFault (List (NameKind × String))
  | [] => .ok []
  | name :: rest => do
      let kind ← kindOf b name
      return (kind, name) :: (← kindsOf b rest)

def removal : NameKind × String → Op Script
  | (.relationships, name) =>
      .nested .sideEffect [.of [.selectLabel .all name, .append .unfold [], .append .drop []]]
  | (_, name) => .nested .sideEffect [.of [.select [name], .append .drop []]]

/-- Relationships go before nodes, which take their own with them. -/
def deleteOps (b : Bindings) (d : DeleteClause) : Except CompileFault Ops := do
  let targets ← kindsOf b d.names
  let (nodes, others) := targets.partition fun target => target.1 == .node
  return (others ++ nodes).map removal

end PropertyGraph.Cypher
