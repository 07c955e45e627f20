import Mathlib.Data.List.Perm.Basic
import PropertyGraph.Proofs.Graph.Labels

/-!
What may be asked of a graph, one request after another. Whatever was asked, the tables and the
indexes show the same graph, each id is given out once, and a request for what is missing leaves
the graph as it was.

What elements are added to stays as it was, at its place; behind it stands what was added, in an
order that is not said.
-/

namespace PropertyGraph

namespace Graph

inductive Request where
  | addVertex (label : String)
  | addVertexWith (label : String) (properties : List (String × Value))
  | addEdge (label : String) (source target : VertexId)
  | setVertexProperty (id : VertexId) (key : String) (value : Value)
  | removeVertexProperty (id : VertexId) (key : String)
  | setEdgeProperty (id : EdgeId) (key : String) (value : Value)
  | removeEdgeProperty (id : EdgeId) (key : String)
  | removeVertex (id : VertexId)
  | removeEdge (id : EdgeId)

inductive Answer where
  | vertex (id : VertexId)
  | edge (id : EdgeId)
  | done
  | notFound (element : MissingElement)

namespace Answer

/-- The vertex that was given its id. -/
def vertex? : Answer → Option VertexId
  | .vertex id => some id
  | _ => none

/-- The edge that was given its id. -/
def edge? : Answer → Option EdgeId
  | .edge id => some id
  | _ => none

end Answer

/-- The answer to a change, and the graph after it. -/
def answered (g : Graph) : Except MissingElement Graph → Answer × Graph
  | .ok after => (.done, after)
  | .error missing => (.notFound missing, g)

namespace Request

def perform (g : Graph) : Request → Answer × Graph
  | .addVertex label =>
      let (id, after) := g.addVertex label []
      (.vertex id, after)
  | .addVertexWith label properties =>
      let (id, after) := g.addVertex label (Dictionary.ofEntries properties)
      (.vertex id, after)
  | .addEdge label source target =>
      match g.addEdge label source target [] with
      | .ok (id, after) => (.edge id, after)
      | .error missing => (.notFound missing, g)
  | .setVertexProperty id key value => g.answered (g.setVertexProperty id key value)
  | .removeVertexProperty id key => g.answered (g.removeVertexProperty id key)
  | .setEdgeProperty id key value => g.answered (g.setEdgeProperty id key value)
  | .removeEdgeProperty id key => g.answered (g.removeEdgeProperty id key)
  | .removeVertex id => (.done, g.removeVertex id)
  | .removeEdge id => (.done, g.removeEdge id)

def performAll (g : Graph) : List Request → List Answer × Graph
  | [] => ([], g)
  | request :: rest =>
      let (answer, next) := request.perform g
      let (answers, after) := performAll next rest
      (answer :: answers, after)

end Request

/-- A change that some request makes of each graph. -/
def IsRequested (change : Graph → Except MissingElement Graph) : Prop :=
  ∀ g, ∃ request : Request, request.perform g = g.answered (change g)

/-- The tables and all that is asked through the indexes show the same graph. -/
structure TablesAgree (g : Graph) : Prop where
  joins : ∀ e ∈ g.edges, (∃ v ∈ g.vertices, v.id = e.source) ∧ ∃ v ∈ g.vertices, v.id = e.target
  outgoing : ∀ id, g.edgesFrom id = g.edges.filter fun e => e.source = id
  incoming : ∀ id, g.edgesInto id = g.edges.filter fun e => e.target = id
  once : (g.edges.map Edge.id).Nodup
  outDegree : ∀ id, g.outDegree id = (g.edgesFrom id).length
  inDegree : ∀ id, g.inDegree id = (g.edgesInto id).length
  labelled : ∀ label, g.verticesLabelled label = g.vertices.filter fun v => v.label = label
  ascending : ∀ label,
    (g.verticesLabelled label).Pairwise fun v w => v.id.toNat < w.id.toNat
  labels : ∀ label, label ∈ g.labels ↔ ∃ v ∈ g.vertices, v.label = label
  sorted : g.labels.Pairwise (· < ·)

theorem Reachable.tablesAgree {g : Graph} (reachable : g.Reachable) : g.TablesAgree := by
  have consistent := reachable.consistent
  have labelled := verticesLabelled_eq reachable
  refine ⟨consistent.joins, consistent.indexed.edgesFrom_eq, consistent.indexed.edgesInto_eq,
    consistent.indexed.ids_nodup, fun id => ?_, fun id => ?_, labelled, fun label => ?_,
    mem_labels_iff reachable, ?_⟩
  · rw [consistent.indexed.edgesFrom_eq, outDegree, consistent.indexed.outgoing, List.length_map]
  · rw [consistent.indexed.edgesInto_eq, inDegree, consistent.indexed.incoming, List.length_map]
  · rw [labelled]
    exact consistent.ascending.filter _
  · exact VertexIndex.labels_ascending reachable.labelsIndexed.distinct

/-- Ids are given out in turn, and an element that is stored was there before or was given its id
in between. -/
structure Grows (g : Graph) (vertices : List VertexId) (edges : List EdgeId) (after : Graph) :
    Prop where
  vertexIds : vertices.map VertexId.toNat = List.range' g.nextVertex vertices.length
  edgeIds : edges.map EdgeId.toNat = List.range' g.nextEdge edges.length
  nextVertex : after.nextVertex = g.nextVertex + vertices.length
  nextEdge : after.nextEdge = g.nextEdge + edges.length
  storedVertices : (after.vertices.map Vertex.id).Sublist (g.vertices.map Vertex.id ++ vertices)
  storedEdges : (after.edges.map Edge.id).Sublist (g.edges.map Edge.id ++ edges)

namespace Grows

variable {g next after : Graph} {vertices moreVertices : List VertexId}
  {edges moreEdges : List EdgeId}

theorem refl (g : Graph) : g.Grows [] [] g :=
  ⟨rfl, rfl, rfl, rfl, by simp, by simp⟩

theorem trans (first : g.Grows vertices edges next)
    (second : next.Grows moreVertices moreEdges after) :
    g.Grows (vertices ++ moreVertices) (edges ++ moreEdges) after where
  vertexIds := by
    rw [List.map_append, first.vertexIds, second.vertexIds, first.nextVertex,
      List.range'_append_1, List.length_append]
  edgeIds := by
    rw [List.map_append, first.edgeIds, second.edgeIds, first.nextEdge, List.range'_append_1,
      List.length_append]
  nextVertex := by rw [second.nextVertex, first.nextVertex, List.length_append, Nat.add_assoc]
  nextEdge := by rw [second.nextEdge, first.nextEdge, List.length_append, Nat.add_assoc]
  storedVertices := by
    rw [← List.append_assoc]
    exact second.storedVertices.trans (first.storedVertices.append_right _)
  storedEdges := by
    rw [← List.append_assoc]
    exact second.storedEdges.trans (first.storedEdges.append_right _)

theorem silent (nextVertex : after.nextVertex = g.nextVertex)
    (nextEdge : after.nextEdge = g.nextEdge)
    (storedVertices : (after.vertices.map Vertex.id).Sublist (g.vertices.map Vertex.id))
    (storedEdges : (after.edges.map Edge.id).Sublist (g.edges.map Edge.id)) :
    g.Grows [] [] after :=
  ⟨rfl, rfl, nextVertex, nextEdge, by rwa [List.append_nil], by rwa [List.append_nil]⟩

theorem addVertex (g : Graph) (label : String) (properties : Properties) :
    g.Grows [⟨g.nextVertex⟩] [] (g.addVertex label properties).2 :=
  ⟨rfl, rfl, rfl, rfl, by simp [Graph.addVertex], by simp [Graph.addVertex]⟩

theorem addEdge {label : String} {source target : VertexId} {properties : Properties}
    {id : EdgeId} (added : g.addEdge label source target properties = .ok (id, after)) :
    g.Grows [] [id] after := by
  unfold Graph.addEdge at added
  split_ifs at added
  cases added
  exact ⟨rfl, rfl, rfl, rfl, by simp, by simp⟩

theorem changeVertex {id : VertexId} {change : Properties → Properties}
    (changed : g.changeVertex id change = .ok after) : g.Grows [] [] after := by
  unfold Graph.changeVertex at changed
  split_ifs at changed
  cases changed
  refine silent rfl rfl ?_ (List.Sublist.refl _)
  rw [List.map_map, List.map_congr_left]
  intro v _
  rw [Function.comp_apply]
  split <;> rfl

theorem changeEdge {id : EdgeId} {change : Properties → Properties}
    (changed : g.changeEdge id change = .ok after) : g.Grows [] [] after := by
  unfold Graph.changeEdge at changed
  split_ifs at changed
  cases changed
  refine silent rfl rfl (List.Sublist.refl _) ?_
  rw [List.map_map, List.map_congr_left]
  intro e _
  rw [Function.comp_apply]
  split <;> rfl

theorem removeEdge (g : Graph) (id : EdgeId) : g.Grows [] [] (g.removeEdge id) :=
  silent rfl rfl (List.Sublist.refl _) (List.filter_sublist.map _)

theorem removeEdges (g : Graph) (ids : List EdgeId) :
    g.Grows [] [] (ids.foldl Graph.removeEdge g) := by
  induction ids generalizing g with
  | nil => exact refl g
  | cons id rest ih => exact (removeEdge g id).trans (ih _)

theorem removeVertex (g : Graph) (id : VertexId) : g.Grows [] [] (g.removeVertex id) := by
  obtain ⟨index, removed⟩ : ∃ index, g.removeVertex id =
      (g.edgeIndex.from_ id ++ g.edgeIndex.into id).foldl Graph.removeEdge
        { g with vertices := g.vertices.filter (·.id != id), vertexIndex := index } := ⟨_, rfl⟩
  have lost : g.Grows [] []
      { g with vertices := g.vertices.filter (·.id != id), vertexIndex := index } :=
    silent rfl rfl (List.filter_sublist.map _) (List.Sublist.refl _)
  rw [removed]
  exact lost.trans (removeEdges _ _)

theorem answered {result : Except MissingElement Graph}
    (grows : ∀ after, result = .ok after → g.Grows [] [] after) :
    g.Grows [] [] (g.answered result).2 := by
  cases result with
  | ok after => exact grows after rfl
  | error missing => exact refl g

end Grows

namespace Request

variable {g : Graph}

theorem answered_reachable (reachable : g.Reachable) {result : Except MissingElement Graph}
    (next : ∀ after, result = .ok after → after.Reachable) :
    (g.answered result).2.Reachable := by
  cases result with
  | ok after => exact next after rfl
  | error missing => exact reachable

theorem perform_reachable (reachable : g.Reachable) (request : Request) :
    (request.perform g).2.Reachable := by
  cases request with
  | addVertex label => exact .addVertex label [] reachable
  | addVertexWith label properties => exact .addVertex label _ reachable
  | addEdge label source target =>
      rw [perform]
      split
      · next id after added => exact .addEdge reachable added
      · exact reachable
  | setVertexProperty id key value =>
      exact answered_reachable reachable fun _ changed => .changeVertex reachable changed
  | removeVertexProperty id key =>
      exact answered_reachable reachable fun _ changed => .changeVertex reachable changed
  | setEdgeProperty id key value =>
      exact answered_reachable reachable fun _ changed => .changeEdge reachable changed
  | removeEdgeProperty id key =>
      exact answered_reachable reachable fun _ changed => .changeEdge reachable changed
  | removeVertex id => exact .removeVertex id reachable
  | removeEdge id => exact .removeEdge id reachable

theorem answered_gives_no_id (g : Graph) (result : Except MissingElement Graph) :
    (g.answered result).1.vertex? = none ∧ (g.answered result).1.edge? = none := by
  cases result <;> exact ⟨rfl, rfl⟩

/-- One request gives out at most one id, the next one. -/
theorem perform_grows (g : Graph) (request : Request) :
    g.Grows (request.perform g).1.vertex?.toList (request.perform g).1.edge?.toList
      (request.perform g).2 := by
  have changed {result : Except MissingElement Graph}
      (grows : ∀ after, result = .ok after → g.Grows [] [] after) :
      g.Grows (g.answered result).1.vertex?.toList (g.answered result).1.edge?.toList
        (g.answered result).2 := by
    obtain ⟨noVertex, noEdge⟩ := answered_gives_no_id g result
    rw [noVertex, noEdge]
    exact Grows.answered grows
  cases request with
  | addVertex label => exact .addVertex g label []
  | addVertexWith label properties => exact .addVertex g label _
  | addEdge label source target =>
      rw [perform]
      split
      · next id after added => exact .addEdge added
      · exact .refl g
  | setVertexProperty id key value => exact changed fun _ => Grows.changeVertex
  | removeVertexProperty id key => exact changed fun _ => Grows.changeVertex
  | setEdgeProperty id key value => exact changed fun _ => Grows.changeEdge
  | removeEdgeProperty id key => exact changed fun _ => Grows.changeEdge
  | removeVertex id => exact .removeVertex g id
  | removeEdge id => exact .removeEdge g id

theorem performAll_append (g : Graph) (requests others : List Request) :
    performAll g (requests ++ others) =
      ((performAll g requests).1 ++ (performAll (performAll g requests).2 others).1,
        (performAll (performAll g requests).2 others).2) := by
  induction requests generalizing g with
  | nil => rfl
  | cons request rest ih => simp only [List.cons_append, performAll, ih]

theorem performAll_reachable (reachable : g.Reachable) (requests : List Request) :
    (performAll g requests).2.Reachable := by
  induction requests generalizing g with
  | nil => exact reachable
  | cons request rest ih => exact ih (perform_reachable reachable request)

theorem performAll_grows (g : Graph) (requests : List Request) :
    g.Grows ((performAll g requests).1.filterMap Answer.vertex?)
      ((performAll g requests).1.filterMap Answer.edge?) (performAll g requests).2 := by
  induction requests generalizing g with
  | nil => exact .refl g
  | cons request rest ih =>
      have grows := (perform_grows g request).trans (ih (request.perform g).2)
      have cons {α : Type} (f : Answer → Option α) (answer : Answer) (answers : List Answer) :
          (answer :: answers).filterMap f = (f answer).toList ++ answers.filterMap f := by
        rw [List.filterMap_cons]
        cases f answer <;> rfl
      simp only [performAll, cons]
      exact grows

theorem perform_notFound (request : Request) {missing : MissingElement}
    (answer : (request.perform g).1 = .notFound missing) : (request.perform g).2 = g := by
  have unchanged {result : Except MissingElement Graph}
      (answer : (g.answered result).1 = .notFound missing) : (g.answered result).2 = g := by
    cases result with
    | ok after => cases answer
    | error fault => rfl
  cases request with
  | addEdge label source target =>
      rw [perform] at answer ⊢
      split at answer
      · cases answer
      · rfl
  | setVertexProperty id key value => exact unchanged answer
  | removeVertexProperty id key => exact unchanged answer
  | setEdgeProperty id key value => exact unchanged answer
  | removeEdgeProperty id key => exact unchanged answer
  | _ => cases answer

end Request

/-- After any requests to an empty graph the tables and indexes agree, stored edges stand in the
order in which they were made, no id was given out twice, and each request that was answered with
something missing had changed nothing. -/
theorem requests_keep_tables_and_indexes_in_step (requests : List Request) :
    (Request.performAll .empty requests).2.TablesAgree ∧
    ((Request.performAll .empty requests).2.edges.map Edge.id).Sublist
      ((Request.performAll .empty requests).1.filterMap Answer.edge?) ∧
    ((Request.performAll .empty requests).1.filterMap Answer.vertex?).Nodup ∧
    ((Request.performAll .empty requests).1.filterMap Answer.edge?).Nodup ∧
    ∀ before request after missing, requests = before ++ request :: after →
      (request.perform (Request.performAll .empty before).2).1 = .notFound missing →
        (request.perform (Request.performAll .empty before).2).2 =
          (Request.performAll .empty before).2 := by
  have grows := Request.performAll_grows .empty requests
  refine ⟨(Request.performAll_reachable .empty requests).tablesAgree, grows.storedEdges, ?_, ?_,
    fun _ request _ _ _ => request.perform_notFound⟩
  · refine List.Nodup.of_map VertexId.toNat ?_
    rw [grows.vertexIds]
    exact List.nodup_range'
  · refine List.Nodup.of_map EdgeId.toNat ?_
    rw [grows.edgeIds]
    exact List.nodup_range'

end Graph

/-! Graphs that came about by adding elements to another. -/

theorem map_change_one {α ι : Type} [DecidableEq ι] (id : α → ι) (change : α → α)
    {front back : List α} {x : α} (distinct : ((front ++ x :: back).map id).Nodup) :
    (front ++ x :: back).map (fun y => if id y = id x then change y else y) =
      front ++ change x :: back := by
  rw [List.map_append, List.map_cons, List.nodup_append] at distinct
  obtain ⟨-, later, apart⟩ := distinct
  have before : ∀ y ∈ front, (if id y = id x then change y else y) = y := fun y member =>
    if_neg (apart _ (List.mem_map_of_mem member) _ List.mem_cons_self)
  have behind : ∀ y ∈ back, (if id y = id x then change y else y) = y := by
    intro y member
    refine if_neg fun same => (List.nodup_cons.mp later).1 ?_
    rw [← same]
    exact List.mem_map_of_mem member
  rw [List.map_append, List.map_cons, if_pos rfl, List.map_congr_left before, List.map_id',
    List.map_congr_left behind, List.map_id']

/-- A table holds what it held, and behind that what was added, in some order. -/
def Appended {α : Type} (old added table : List α) : Prop :=
  ∃ new, table = old ++ new ∧ new.Perm added

namespace Appended

variable {α ι : Type} {old front back table : List α}

theorem refl (old : List α) : Appended old [] old := ⟨[], (List.append_nil old).symm, .nil⟩

theorem add (appended : Appended old (front ++ back) table) (x : α) :
    Appended old (front ++ x :: back) (table ++ [x]) := by
  obtain ⟨new, rfl, same⟩ := appended
  refine ⟨new ++ [x], List.append_assoc _ _ _, ?_⟩
  exact (List.perm_append_singleton x new).trans ((same.cons x).trans List.perm_middle.symm)

theorem change [DecidableEq ι] {x : α} (appended : Appended old (front ++ x :: back) table)
    (id : α → ι) (distinct : (table.map id).Nodup) (change : α → α) :
    Appended old (front ++ change x :: back)
      (table.map fun y => if id y = id x then change y else y) := by
  obtain ⟨new, rfl, same⟩ := appended
  rw [List.map_append, List.nodup_append] at distinct
  obtain ⟨-, ids, apart⟩ := distinct
  have added : id x ∈ new.map id :=
    List.mem_map_of_mem (same.mem_iff.mpr (List.mem_append_right _ List.mem_cons_self))
  have kept : ∀ y ∈ old, (if id y = id x then change y else y) = y := fun y member =>
    if_neg (apart _ (List.mem_map_of_mem member) _ added)
  refine ⟨new.map fun y => if id y = id x then change y else y, ?_, ?_⟩
  · rw [List.map_append, List.map_congr_left kept, List.map_id']
  · have one := map_change_one id change ((same.map id).nodup_iff.mp ids)
    exact one ▸ same.map _

theorem mem (appended : Appended old front table) {x : α} (member : x ∈ old ++ front) :
    x ∈ table := by
  obtain ⟨new, rfl, same⟩ := appended
  rw [List.mem_append] at member ⊢
  exact member.imp_right same.mem_iff.mpr

end Appended

namespace Graph

/-- A graph that came about by operations, and holds all of another and these elements more. -/
structure Grown (g : Graph) (vertices : List Vertex) (edges : List Edge) (after : Graph) :
    Prop where
  vertices : Appended g.vertices vertices after.vertices
  edges : Appended g.edges edges after.edges
  reachable : after.Reachable

namespace Grown

variable {g h after : Graph} {vertices front back : List Vertex} {edges ahead behind : List Edge}

theorem refl (reachable : g.Reachable) : g.Grown [] [] g := ⟨.refl _, .refl _, reachable⟩

theorem addVertex (grown : g.Grown (front ++ back) edges h) (label : String) :
    g.Grown (front ++ ⟨⟨h.nextVertex⟩, label, []⟩ :: back) edges (h.addVertex label []).2 :=
  ⟨grown.vertices.add _, grown.edges, .addVertex label [] grown.reachable⟩

theorem addEdge (grown : g.Grown vertices (ahead ++ behind) h) {label : String}
    {source target : VertexId} {id : EdgeId}
    (added : h.addEdge label source target [] = .ok (id, after)) :
    g.Grown vertices (ahead ++ ⟨id, label, source, target, []⟩ :: behind) after := by
  refine ⟨?_, ?_, .addEdge grown.reachable added⟩
  all_goals
    unfold Graph.addEdge at added
    split_ifs at added
    cases added
  · exact grown.vertices
  · exact grown.edges.add _

theorem changeVertex {v : Vertex} (grown : g.Grown (front ++ v :: back) edges h)
    {change : Properties → Properties} (changed : h.changeVertex v.id change = .ok after) :
    g.Grown (front ++ { v with properties := change v.properties } :: back) edges after := by
  have reachable := Reachable.changeVertex grown.reachable changed
  unfold Graph.changeVertex at changed
  split_ifs at changed
  cases changed
  exact ⟨grown.vertices.change Vertex.id grown.reachable.consistent.ids_nodup
    fun v => { v with properties := change v.properties }, grown.edges, reachable⟩

theorem changeEdge {e : Edge} (grown : g.Grown vertices (ahead ++ e :: behind) h)
    {change : Properties → Properties} (changed : h.changeEdge e.id change = .ok after) :
    g.Grown vertices (ahead ++ { e with properties := change e.properties } :: behind) after := by
  have reachable := Reachable.changeEdge grown.reachable changed
  unfold Graph.changeEdge at changed
  split_ifs at changed
  cases changed
  exact ⟨grown.vertices, grown.edges.change Edge.id grown.reachable.consistent.indexed.ids_nodup
    fun e => { e with properties := change e.properties }, reachable⟩

end Grown

end Graph

end PropertyGraph
