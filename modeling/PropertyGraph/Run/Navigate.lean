import PropertyGraph.Run.Exec

/-!
Steps from vertices to edges and back.
-/

namespace PropertyGraph

namespace Exec

def vertexIdOf (value : Value) : Exec VertexId :=
  match value with
  | .vertex v => pure v.id
  | other => throw (.notVertex other.typeName)

def vertexValue (id : VertexId) : Exec Value := do
  match (← graph).vertex? id with
  | some v => return .vertex v.ref
  | none => throw (.missing (.vertex id))

end Exec

namespace Application

open Exec

def vertices : Stream → Exec Stream :=
  forEach fun t => do return (← graph).vertices.map fun v => t.split (.vertex v.ref)

/-- The edges of one vertex that have one of the labels, if any are given. -/
def edges (a : Application) (incident : Graph → VertexId → List Edge) : Stream → Exec Stream :=
  forEach fun t => do
    let id ← vertexIdOf t.object
    let found := incident (← graph) id
    let wanted := found.filter fun e => a.labels.isEmpty || a.labels.contains e.label
    return wanted.map fun e => t.split (.edge e.ref)

def outE (a : Application) : Stream → Exec Stream := a.edges Graph.edgesFrom

def inE (a : Application) : Stream → Exec Stream := a.edges Graph.edgesInto

def bothE (a : Application) : Stream → Exec Stream :=
  a.edges fun g id => g.edgesFrom id ++ g.edgesInto id

def vertexId? : Value → Option VertexId
  | .vertex v => some v.id
  | _ => none

/-- The vertex visited last before the object. -/
def previousVertex? (t : Traverser) : Option VertexId :=
  t.past.findSome? fun visit => vertexId? visit.object

/-- The end of an edge that the traverser did not come from. -/
def otherEnd (e : EdgeRef) (t : Traverser) : VertexId :=
  if previousVertex? t = some e.source then e.target else e.source

def endpoint (a : Application) (choose : EdgeRef → Traverser → VertexId) : Stream → Exec Stream :=
  mapEach fun t =>
    match t.object with
    | .edge e => vertexValue (choose e t)
    | other => a.inapplicable other

def outV (a : Application) : Stream → Exec Stream := a.endpoint fun e _ => e.source

def inV (a : Application) : Stream → Exec Stream := a.endpoint fun e _ => e.target

def otherV (a : Application) : Stream → Exec Stream := a.endpoint otherEnd

end Application

end PropertyGraph
