import PropertyGraph.Graph.Basic

/-!
Counters of what was asked and done, and the store: a graph whose changes are counted.
-/

namespace PropertyGraph

structure Metrics where
  queries : Nat
  succeeded : Nat
  failed : Nat
  slow : Nat
  rows : Nat
  compilations : Nat
  explanations : Nat
  rejections : Nat
  verticesInserted : Nat
  edgesInserted : Nat
  elementsDropped : Nat

def Metrics.zero : Metrics := ⟨0, 0, 0, 0, 0, 0, 0, 0, 0, 0, 0⟩

/-- Measured times, in milliseconds, per second and in seconds. -/
structure Timing where
  averageQuery : Binary64
  queryRate : Binary64
  uptime : Nat

def Timing.untimed : Timing := ⟨.zero false, .zero false, 0⟩

structure Store where
  graph : Graph
  metrics : Metrics

namespace Store

def empty : Store := ⟨.empty, .zero⟩

def addVertex (s : Store) (label : String) (properties : Properties) : VertexId × Store :=
  let (id, graph) := s.graph.addVertex label properties
  (id, ⟨graph, { s.metrics with verticesInserted := s.metrics.verticesInserted + 1 }⟩)

def addEdge (s : Store) (label : String) (source target : VertexId) (properties : Properties) :
    Except MissingElement (EdgeId × Store) := do
  let (id, graph) ← s.graph.addEdge label source target properties
  return (id, ⟨graph, { s.metrics with edgesInserted := s.metrics.edgesInserted + 1 }⟩)

def countDrop (s : Store) : Store :=
  { s with metrics := { s.metrics with elementsDropped := s.metrics.elementsDropped + 1 } }

def resetMetrics (s : Store) : Store := { s with metrics := .zero }

end Store

end PropertyGraph
