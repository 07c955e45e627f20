import PropertyGraph.Value.Basic
import PropertyGraph.Value.Text

/-!
Property graphs. Vertices and edges are kept in order of creation and carry properties in order of
first writing; an id is given out once. Removing a vertex removes the edges that touch it. Indexes
find vertices by label, and edges by the vertices that they join.
-/

namespace PropertyGraph

/-- The ids under each label, ascending. -/
structure VertexIndex where
  byLabel : Dictionary String (List VertexId)

namespace VertexIndex

def empty : VertexIndex := ⟨[]⟩

def insertAscending (id : VertexId) : List VertexId → List VertexId
  | [] => [id]
  | other :: rest =>
      if id.toNat < other.toNat then id :: other :: rest
      else if id = other then other :: rest
      else other :: insertAscending id rest

def withLabel (index : VertexIndex) (label : String) : List VertexId :=
  (Dictionary.get? label index.byLabel).getD []

def add (index : VertexIndex) (label : String) (id : VertexId) : VertexIndex :=
  ⟨Dictionary.put label (insertAscending id (index.withLabel label)) index.byLabel⟩

def remove (index : VertexIndex) (id : VertexId) (label : String) : VertexIndex :=
  ⟨Dictionary.adjust label (·.filter (· != id)) index.byLabel⟩

/-- Labels in use, in ascending order. -/
def labels (index : VertexIndex) : List String :=
  ((index.byLabel.filter fun entry => !entry.2.isEmpty).map (·.1)).mergeSort fun a b =>
    compare a b != .gt

end VertexIndex

/-- The edges that leave and enter each vertex, oldest first, and the ends of each edge. -/
structure EdgeIndex where
  outgoing : Dictionary VertexId (List EdgeId)
  incoming : Dictionary VertexId (List EdgeId)
  ends : Dictionary EdgeId (VertexId × VertexId)

namespace EdgeIndex

def empty : EdgeIndex := ⟨[], [], []⟩

def from_ (index : EdgeIndex) (id : VertexId) : List EdgeId :=
  (Dictionary.get? id index.outgoing).getD []

def into (index : EdgeIndex) (id : VertexId) : List EdgeId :=
  (Dictionary.get? id index.incoming).getD []

def ends? (index : EdgeIndex) (id : EdgeId) : Option (VertexId × VertexId) :=
  Dictionary.get? id index.ends

def add (index : EdgeIndex) (id : EdgeId) (source target : VertexId) : EdgeIndex where
  outgoing := Dictionary.put source (index.from_ source ++ [id]) index.outgoing
  incoming := Dictionary.put target (index.into target ++ [id]) index.incoming
  ends := Dictionary.put id (source, target) index.ends

def remove (index : EdgeIndex) (id : EdgeId) : EdgeIndex :=
  match index.ends? id with
  | none => index
  | some (source, target) =>
      { outgoing := Dictionary.adjust source (·.filter (· != id)) index.outgoing
        incoming := Dictionary.adjust target (·.filter (· != id)) index.incoming
        ends := Dictionary.remove id index.ends }

end EdgeIndex

structure Vertex where
  id : VertexId
  label : String
  properties : Properties

structure Edge where
  id : EdgeId
  label : String
  source : VertexId
  target : VertexId
  properties : Properties

def Vertex.ref (v : Vertex) : VertexRef := ⟨v.id, v.label⟩

def Edge.ref (e : Edge) : EdgeRef := ⟨e.id, e.label, e.source, e.target⟩

/-- An element that an operation needs and the graph does not have. -/
inductive MissingElement where
  | vertex (id : VertexId)
  | edge (id : EdgeId)
  | source (id : VertexId)
  | target (id : VertexId)
  | deletedVertex (id : VertexId)
  | deletedEdge (id : EdgeId)

def MissingElement.message : MissingElement → String
  | .vertex id => "顶点 " ++ id.inspect ++ " 不存在"
  | .edge id => "边 " ++ id.inspect ++ " 不存在"
  | .source id => "源顶点 " ++ id.inspect ++ " 不存在"
  | .target id => "目标顶点 " ++ id.inspect ++ " 不存在"
  | .deletedVertex id => "顶点 " ++ id.inspect ++ " 已被删除"
  | .deletedEdge id => "边 " ++ id.inspect ++ " 已被删除"

structure Graph where
  vertices : List Vertex
  edges : List Edge
  vertexIndex : VertexIndex
  edgeIndex : EdgeIndex
  nextVertex : Nat
  nextEdge : Nat

namespace Graph

def empty : Graph := ⟨[], [], .empty, .empty, 1, 1⟩

def vertex? (g : Graph) (id : VertexId) : Option Vertex := g.vertices.find? (·.id == id)

def edge? (g : Graph) (id : EdgeId) : Option Edge := g.edges.find? (·.id == id)

def hasVertex (g : Graph) (id : VertexId) : Bool := (g.vertex? id).isSome

def addVertex (g : Graph) (label : String) (properties : Properties) : VertexId × Graph :=
  let id := ⟨g.nextVertex⟩
  (id,
    { g with
      vertices := g.vertices ++ [⟨id, label, properties⟩]
      vertexIndex := g.vertexIndex.add label id
      nextVertex := g.nextVertex + 1 })

/-- Both ends must be there; the source is looked up first. -/
def addEdge (g : Graph) (label : String) (source target : VertexId) (properties : Properties) :
    Except MissingElement (EdgeId × Graph) :=
  if !g.hasVertex source then .error (.source source)
  else if !g.hasVertex target then .error (.target target)
  else
    let id := ⟨g.nextEdge⟩
    .ok (id,
      { g with
        edges := g.edges ++ [⟨id, label, source, target, properties⟩]
        edgeIndex := g.edgeIndex.add id source target
        nextEdge := g.nextEdge + 1 })

def changeVertex (g : Graph) (id : VertexId) (change : Properties → Properties) :
    Except MissingElement Graph :=
  if g.hasVertex id then
    .ok { g with vertices := g.vertices.map fun v =>
      if v.id = id then { v with properties := change v.properties } else v }
  else .error (.vertex id)

def changeEdge (g : Graph) (id : EdgeId) (change : Properties → Properties) :
    Except MissingElement Graph :=
  if (g.edge? id).isSome then
    .ok { g with edges := g.edges.map fun e =>
      if e.id = id then { e with properties := change e.properties } else e }
  else .error (.edge id)

def setVertexProperty (g : Graph) (id : VertexId) (key : String) (value : Value) :
    Except MissingElement Graph :=
  g.changeVertex id (Dictionary.put key value)

def removeVertexProperty (g : Graph) (id : VertexId) (key : String) :
    Except MissingElement Graph :=
  g.changeVertex id (Dictionary.remove key)

def setEdgeProperty (g : Graph) (id : EdgeId) (key : String) (value : Value) :
    Except MissingElement Graph :=
  g.changeEdge id (Dictionary.put key value)

def removeEdgeProperty (g : Graph) (id : EdgeId) (key : String) : Except MissingElement Graph :=
  g.changeEdge id (Dictionary.remove key)

def removeEdge (g : Graph) (id : EdgeId) : Graph :=
  { g with
    edges := g.edges.filter (·.id != id)
    edgeIndex := g.edgeIndex.remove id }

def removeVertex (g : Graph) (id : VertexId) : Graph :=
  let index := match g.vertex? id with
    | some v => g.vertexIndex.remove id v.label
    | none => g.vertexIndex
  let bare := { g with
    vertices := g.vertices.filter (·.id != id)
    vertexIndex := index }
  (g.edgeIndex.from_ id ++ g.edgeIndex.into id).foldl removeEdge bare

def verticesLabelled (g : Graph) (label : String) : List Vertex :=
  (g.vertexIndex.withLabel label).filterMap g.vertex?

def edgesFrom (g : Graph) (id : VertexId) : List Edge := (g.edgeIndex.from_ id).filterMap g.edge?

def edgesInto (g : Graph) (id : VertexId) : List Edge := (g.edgeIndex.into id).filterMap g.edge?

def outDegree (g : Graph) (id : VertexId) : Nat := (g.edgeIndex.from_ id).length

def inDegree (g : Graph) (id : VertexId) : Nat := (g.edgeIndex.into id).length

def labels (g : Graph) : List String := g.vertexIndex.labels

end Graph

end PropertyGraph
