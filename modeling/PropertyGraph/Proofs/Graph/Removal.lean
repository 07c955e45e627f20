import PropertyGraph.Proofs.Graph.History
import PropertyGraph.Run.Navigate

/-!
What is left of a graph when elements are taken away one after another. A vertex takes its edges
with it, some of which may have been taken before or may be taken again; only the elements that are
asked for matter, not their order and not how often. What other vertices lose is these edges alone.
-/

namespace PropertyGraph

open Application (vertexId?)

namespace Graph

/-- What is left of a graph without some vertices, the edges at them, and some other edges. -/
structure Without (g : Graph) (lostVertices : List VertexId) (lostEdges : List EdgeId)
    (after : Graph) : Prop where
  vertices : after.vertices = g.vertices.filter fun v => v.id ∉ lostVertices
  edges : after.edges = g.edges.filter fun e =>
    e.id ∉ lostEdges ∧ e.source ∉ lostVertices ∧ e.target ∉ lostVertices
  nextVertex : after.nextVertex = g.nextVertex
  nextEdge : after.nextEdge = g.nextEdge
  reachable : after.Reachable

variable {g h : Graph}

theorem removeEdges_edges (ids : List EdgeId) (g : Graph) :
    (ids.foldl removeEdge g).edges = g.edges.filter fun e => e.id ∉ ids := by
  induction ids generalizing g with
  | nil => simp
  | cons id rest ih =>
      have first : (g.removeEdge id).edges = g.edges.filter (·.id != id) := rfl
      rw [List.foldl_cons, ih, first, List.filter_filter]
      congr 1
      funext e
      simp [Bool.and_comm, bne, Bool.beq_eq_decide_eq]

theorem removeEdges_others (ids : List EdgeId) (g : Graph) :
    (ids.foldl removeEdge g).vertices = g.vertices ∧
      (ids.foldl removeEdge g).nextVertex = g.nextVertex ∧
      (ids.foldl removeEdge g).nextEdge = g.nextEdge := by
  induction ids generalizing g with
  | nil => exact ⟨rfl, rfl, rfl⟩
  | cons id rest ih => exact ih (g.removeEdge id)

theorem EdgesIndexed.touches (indexed : g.EdgesIndexed) {e : Edge} (member : e ∈ g.edges)
    (id : VertexId) :
    e.id ∈ g.edgeIndex.from_ id ++ g.edgeIndex.into id ↔ e.source = id ∨ e.target = id := by
  have shown (wanted : Edge → Bool) :
      e.id ∈ (g.edges.filter wanted).map Edge.id ↔ wanted e = true := by
    constructor
    · intro listed
      obtain ⟨other, found, same⟩ := List.mem_map.mp listed
      obtain ⟨stored, passes⟩ := List.mem_filter.mp found
      rwa [← indexed.distinct stored member same]
    · exact fun passes => List.mem_map_of_mem (List.mem_filter.mpr ⟨member, passes⟩)
  rw [List.mem_append, indexed.outgoing, indexed.incoming, shown, shown]
  simp

theorem EdgesIndexed.removeVertex (indexed : g.EdgesIndexed) (id : VertexId) :
    (g.removeVertex id).vertices = g.vertices.filter (·.id != id) ∧
      (g.removeVertex id).edges = g.edges.filter (fun e => e.source ≠ id ∧ e.target ≠ id) ∧
      (g.removeVertex id).nextVertex = g.nextVertex ∧
      (g.removeVertex id).nextEdge = g.nextEdge := by
  obtain ⟨bare, removed, sameEdges, vertices, nextVertex, nextEdge⟩ : ∃ bare : Graph,
      g.removeVertex id =
        (g.edgeIndex.from_ id ++ g.edgeIndex.into id).foldl Graph.removeEdge bare ∧
      bare.edges = g.edges ∧ bare.vertices = g.vertices.filter (·.id != id) ∧
      bare.nextVertex = g.nextVertex ∧ bare.nextEdge = g.nextEdge := ⟨_, rfl, rfl, rfl, rfl, rfl⟩
  obtain ⟨kept, keptVertex, keptEdge⟩ :=
    removeEdges_others (g.edgeIndex.from_ id ++ g.edgeIndex.into id) bare
  rw [removed, removeEdges_edges, sameEdges]
  refine ⟨kept.trans vertices, List.filter_congr fun e member => ?_, keptVertex.trans nextVertex,
    keptEdge.trans nextEdge⟩
  rw [decide_eq_decide, indexed.touches member, not_or]

namespace Without

variable {vertices : List VertexId} {edges : List EdgeId}

theorem refl (reachable : g.Reachable) : g.Without [] [] g :=
  ⟨by simp, by simp, rfl, rfl, reachable⟩

theorem removeEdge (without : g.Without vertices edges h) (id : EdgeId) :
    g.Without vertices (edges ++ [id]) (h.removeEdge id) where
  vertices := without.vertices
  edges := by
    have first : (h.removeEdge id).edges = h.edges.filter (·.id != id) := rfl
    rw [first, without.edges, List.filter_filter]
    congr 1
    funext e
    simp only [List.mem_append, List.mem_singleton, not_or, Bool.decide_and]
    grind
  nextVertex := without.nextVertex
  nextEdge := without.nextEdge
  reachable := .removeEdge id without.reachable

theorem removeVertex (without : g.Without vertices edges h) (id : VertexId) :
    g.Without (vertices ++ [id]) edges (h.removeVertex id) := by
  obtain ⟨kept, apart, nextVertex, nextEdge⟩ :=
    without.reachable.consistent.indexed.removeVertex id
  refine ⟨?_, ?_, nextVertex.trans without.nextVertex, nextEdge.trans without.nextEdge,
    .removeVertex id without.reachable⟩
  · rw [kept, without.vertices, List.filter_filter]
    congr 1
    funext v
    simp [Bool.and_comm, bne, Bool.beq_eq_decide_eq]
  · rw [apart, without.edges, List.filter_filter]
    congr 1
    funext e
    simp only [List.mem_append, List.mem_singleton, not_or, Bool.decide_and]
    grind

theorem congr (without : g.Without vertices edges h) {vertices' : List VertexId}
    {edges' : List EdgeId} (sameVertices : ∀ id, id ∈ vertices ↔ id ∈ vertices')
    (sameEdges : ∀ id, id ∈ edges ↔ id ∈ edges') : g.Without vertices' edges' h := by
  refine ⟨without.vertices.trans ?_, without.edges.trans ?_, without.nextVertex, without.nextEdge,
    without.reachable⟩
  · simp only [sameVertices]
  · simp only [sameVertices, sameEdges]

end Without

/-- Takes away the element that a value stands for. -/
def discard (g : Graph) : Value → Graph
  | .vertex v => g.removeVertex v.id
  | .edge e => g.removeEdge e.id
  | _ => g

end Graph

def Value.edgeId? : Value → Option EdgeId
  | .edge e => some e.id
  | _ => none

namespace Graph

theorem Without.discard {g h : Graph} {vertices : List VertexId} {edges : List EdgeId}
    (without : g.Without vertices edges h) (v : Value) :
    g.Without (vertices ++ (vertexId? v).toList) (edges ++ v.edgeId?.toList) (h.discard v) := by
  cases v with
  | vertex v =>
      have removed := without.removeVertex v.id
      rwa [← List.append_nil edges] at removed
  | edge e =>
      have removed := without.removeEdge e.id
      rwa [← List.append_nil vertices] at removed
  | _ =>
      rw [← List.append_nil vertices, ← List.append_nil edges] at without
      exact without

/-- Elements that are taken away one after another are gone, with the edges of vertices; all others
stay as they are. -/
theorem Without.discards {g h : Graph} {vertices : List VertexId} {edges : List EdgeId}
    (without : g.Without vertices edges h) (values : List Value) :
    g.Without (vertices ++ values.filterMap vertexId?)
      (edges ++ values.filterMap Value.edgeId?) (values.foldl Graph.discard h) := by
  induction values generalizing h vertices edges with
  | nil => simpa using without
  | cons v rest ih =>
      have cons {α : Type} (f : Value → Option α) :
          (v :: rest).filterMap f = (f v).toList ++ rest.filterMap f := by
        rw [List.filterMap_cons]
        cases f v <;> rfl
      rw [cons, cons, ← List.append_assoc, ← List.append_assoc]
      exact ih (without.discard v)

/-- A graph after one vertex was taken from it, with the edges at it: elements that are left stand
as they were, and other vertices lose the edges that joined them to it. -/
structure LosesVertex (g : Graph) (id : VertexId) (after : Graph) : Prop where
  vertices : after.vertices = g.vertices.filter fun v => v.id ≠ id
  edges : after.edges = g.edges.filter fun e => e.source ≠ id ∧ e.target ≠ id
  bare : after.edgesFrom id = [] ∧ after.edgesInto id = []
  outgoing : ∀ other, other ≠ id →
    after.edgesFrom other = (g.edgesFrom other).filter fun e => e.target ≠ id
  incoming : ∀ other, other ≠ id →
    after.edgesInto other = (g.edgesInto other).filter fun e => e.source ≠ id
  outDegree : ∀ other, other ≠ id → g.outDegree other =
    after.outDegree other + ((g.edgesFrom other).filter fun e => e.target = id).length
  inDegree : ∀ other, other ≠ id → g.inDegree other =
    after.inDegree other + ((g.edgesInto other).filter fun e => e.source = id).length
  labelled : ∀ label,
    after.verticesLabelled label = (g.verticesLabelled label).filter fun v => v.id ≠ id
  nextVertex : after.nextVertex = g.nextVertex
  nextEdge : after.nextEdge = g.nextEdge

variable {g : Graph}

theorem length_filter_add {α : Type} (lost : α → Prop) [DecidablePred lost] (elements : List α) :
    elements.length =
      (elements.filter fun x => ¬lost x).length + (elements.filter fun x => lost x).length := by
  have split := List.length_eq_length_filter_add (l := elements) fun x => decide (lost x)
  simp only [← decide_not] at split
  rw [split, Nat.add_comm]

theorem Reachable.losesVertex (reachable : g.Reachable) (id : VertexId) :
    g.LosesVertex id (g.removeVertex id) := by
  have before := reachable.tablesAgree
  have after := (Reachable.removeVertex id reachable).tablesAgree
  obtain ⟨vertices, edges, nextVertex, nextEdge⟩ :=
    reachable.consistent.indexed.removeVertex id
  have kept : (g.removeVertex id).vertices = g.vertices.filter fun v => v.id ≠ id := by
    rw [vertices]
    congr 1
    funext v
    simp [bne, Bool.beq_eq_decide_eq]
  have outgoing (other : VertexId) (different : other ≠ id) :
      (g.removeVertex id).edgesFrom other = (g.edgesFrom other).filter fun e => e.target ≠ id := by
    rw [after.outgoing, before.outgoing, edges, List.filter_filter, List.filter_filter]
    congr 1
    funext e
    grind
  have incoming (other : VertexId) (different : other ≠ id) :
      (g.removeVertex id).edgesInto other = (g.edgesInto other).filter fun e => e.source ≠ id := by
    rw [after.incoming, before.incoming, edges, List.filter_filter, List.filter_filter]
    congr 1
    funext e
    grind
  refine ⟨kept, edges, ⟨?_, ?_⟩, outgoing, incoming, fun other different => ?_,
    fun other different => ?_, fun label => ?_, nextVertex, nextEdge⟩
  · rw [after.outgoing, edges, List.filter_filter, List.filter_eq_nil_iff]
    grind
  · rw [after.incoming, edges, List.filter_filter, List.filter_eq_nil_iff]
    grind
  · rw [before.outDegree, after.outDegree, outgoing other different]
    exact length_filter_add (fun e : Edge => e.target = id) _
  · rw [before.inDegree, after.inDegree, incoming other different]
    exact length_filter_add (fun e : Edge => e.source = id) _
  · rw [before.labelled, after.labelled, kept, List.filter_filter, List.filter_filter]
    congr 1
    funext v
    exact Bool.and_comm _ _

theorem Consistent.removeVertex_absent (consistent : g.Consistent) {id : VertexId}
    (absent : ∀ v ∈ g.vertices, v.id ≠ id) : g.removeVertex id = g := by
  have unknown : g.vertex? id = none :=
    List.find?_eq_none.mpr fun v member => by simpa using absent v member
  have leaves : g.edgeIndex.from_ id = [] := by
    rw [consistent.indexed.outgoing, List.map_eq_nil_iff, List.filter_eq_nil_iff]
    intro e member
    obtain ⟨⟨v, stored, same⟩, _⟩ := consistent.joins e member
    simpa using fun here => absent v stored (same.trans here)
  have enters : g.edgeIndex.into id = [] := by
    rw [consistent.indexed.incoming, List.map_eq_nil_iff, List.filter_eq_nil_iff]
    intro e member
    obtain ⟨_, v, stored, same⟩ := consistent.joins e member
    simpa using fun here => absent v stored (same.trans here)
  have others : g.vertices.filter (·.id != id) = g.vertices :=
    List.filter_eq_self.mpr fun v member => bne_iff_ne.mpr (absent v member)
  simp only [Graph.removeVertex, unknown, leaves, enters, others, List.append_nil, List.foldl_nil]

/-- Taking a vertex away succeeds, takes the edges at it with it and nothing else, and is done once:
again, or for an id that no vertex has, it changes nothing. -/
theorem removing_a_vertex_takes_its_edges_alone (reachable : g.Reachable) (id : VertexId) :
    ∃ after, Request.perform g (.removeVertex id) = (.done, after) ∧ g.LosesVertex id after ∧
      Request.perform after (.removeVertex id) = (.done, after) ∧
      ((∀ v ∈ g.vertices, v.id ≠ id) → after = g) := by
  have loses := reachable.losesVertex id
  refine ⟨g.removeVertex id, rfl, loses, ?_, reachable.consistent.removeVertex_absent⟩
  have gone : ∀ v ∈ (g.removeVertex id).vertices, v.id ≠ id := by
    intro v member
    rw [loses.vertices] at member
    exact of_decide_eq_true (List.mem_filter.mp member).2
  exact congrArg (Answer.done, ·)
    ((Reachable.removeVertex id reachable).consistent.removeVertex_absent gone)

/-- Two vertices, with an edge from the first to itself, two to the second, one back, and one from
the second to itself. -/
def knot : List Request :=
  [.addVertex "a", .addVertex "b", .addEdge "loop" ⟨1⟩ ⟨1⟩, .addEdge "to" ⟨1⟩ ⟨2⟩,
    .addEdge "to" ⟨1⟩ ⟨2⟩, .addEdge "back" ⟨2⟩ ⟨1⟩, .addEdge "loop" ⟨2⟩ ⟨2⟩]

theorem removing_a_vertex_of_a_knot :
    (Request.performAll .empty knot).2.Reachable ∧
    (Request.performAll .empty knot).2.edges.length = 5 ∧
    ∃ after, Request.perform (Request.performAll .empty knot).2 (.removeVertex ⟨1⟩) =
        (.done, after) ∧
      (Request.performAll .empty knot).2.LosesVertex ⟨1⟩ after ∧
      after.edges.map Edge.id = [⟨5⟩] := by
  have reachable : (Request.performAll .empty knot).2.Reachable :=
    Request.performAll_reachable .empty knot
  obtain ⟨after, performed, loses, _⟩ := removing_a_vertex_takes_its_edges_alone reachable ⟨1⟩
  refine ⟨reachable, rfl, after, performed, loses, ?_⟩
  rw [loses.edges]
  rfl

end Graph

end PropertyGraph
