import Mathlib.Data.List.Nodup
import PropertyGraph.Graph.Basic

/-!
Tables and edge index of a graph agree, whatever operations it was made by. So what is found through
the index is what a search of the whole edge table would find, and an edge joins vertices that are
there.
-/

namespace PropertyGraph

namespace Dictionary

variable {κ α : Type} [DecidableEq κ]

theorem get?_put (key other : κ) (value : α) (d : Dictionary κ α) :
    get? other (put key value d) = if other = key then some value else get? other d := by
  induction d with
  | nil => simp [put, get?, eq_comm]
  | cons entry rest ih =>
      obtain ⟨k, old⟩ := entry
      by_cases here : k = key
      · subst here
        by_cases same : other = k
        · simp [put, get?, same]
        · simp [put, get?, same, Ne.symm same]
      · rw [put, if_neg here, get?, get?, ih]
        by_cases same : other = key
        · have passed : k ≠ other := fun h => here (h.trans same)
          rw [if_neg passed, if_pos same, if_pos same]
        · rw [if_neg same, if_neg same]

theorem get?_adjust (key other : κ) (change : α → α) (d : Dictionary κ α) :
    get? other (adjust key change d) =
      if other = key then (get? other d).map change else get? other d := by
  induction d with
  | nil => simp [adjust, get?]
  | cons entry rest ih =>
      obtain ⟨k, old⟩ := entry
      by_cases here : k = key
      · subst here
        by_cases same : other = k
        · simp [adjust, get?, same]
        · simp [adjust, get?, same, Ne.symm same]
      · rw [adjust, if_neg here, get?, get?, ih]
        by_cases same : other = key
        · have passed : k ≠ other := fun h => here (h.trans same)
          rw [if_neg passed, if_pos same, if_pos same, if_neg passed]
        · rw [if_neg same, if_neg same]

theorem get?_remove {key other : κ} (different : other ≠ key) (d : Dictionary κ α) :
    get? other (remove key d) = get? other d := by
  induction d with
  | nil => rfl
  | cons entry rest ih =>
      obtain ⟨k, old⟩ := entry
      by_cases here : k = key
      · have passed : k ≠ other := fun h => different (h.symm.trans here)
        rw [remove, if_pos here, get?, if_neg passed]
      · rw [remove, if_neg here, get?, get?, ih]

end Dictionary

namespace EdgeIndex

variable (index : EdgeIndex) (id : EdgeId) (source target : VertexId)

theorem from_add (other : VertexId) :
    (index.add id source target).from_ other =
      if other = source then index.from_ source ++ [id] else index.from_ other := by
  rw [add, from_, Dictionary.get?_put]
  by_cases same : other = source
  · rw [if_pos same, if_pos same, Option.getD_some]
  · rw [if_neg same, if_neg same, from_]

theorem into_add (other : VertexId) :
    (index.add id source target).into other =
      if other = target then index.into target ++ [id] else index.into other := by
  rw [add, into, Dictionary.get?_put]
  by_cases same : other = target
  · rw [if_pos same, if_pos same, Option.getD_some]
  · rw [if_neg same, if_neg same, into]

theorem ends?_add (other : EdgeId) :
    (index.add id source target).ends? other =
      if other = id then some (source, target) else index.ends? other := by
  rw [add, ends?, Dictionary.get?_put, ends?]

variable {index id source target}

theorem from_remove (known : index.ends? id = some (source, target)) (other : VertexId) :
    (index.remove id).from_ other =
      if other = source then (index.from_ other).filter (· != id) else index.from_ other := by
  simp only [remove, known]
  rw [from_, Dictionary.get?_adjust]
  by_cases same : other = source
  · rw [if_pos same, if_pos same, from_]
    cases Dictionary.get? other index.outgoing <;> rfl
  · rw [if_neg same, if_neg same, from_]

theorem into_remove (known : index.ends? id = some (source, target)) (other : VertexId) :
    (index.remove id).into other =
      if other = target then (index.into other).filter (· != id) else index.into other := by
  simp only [remove, known]
  rw [into, Dictionary.get?_adjust]
  by_cases same : other = target
  · rw [if_pos same, if_pos same, into]
    cases Dictionary.get? other index.incoming <;> rfl
  · rw [if_neg same, if_neg same, into]

theorem ends?_remove {other : EdgeId} (different : other ≠ id) :
    (index.remove id).ends? other = index.ends? other := by
  cases known : index.ends? id with
  | none => simp only [remove, known]
  | some ends =>
      simp only [remove, known]
      exact Dictionary.get?_remove different index.ends

end EdgeIndex

namespace Graph

/-- The edge table as the index shows it, whichever vertices there are. -/
structure EdgesIndexed (g : Graph) : Prop where
  ascending : g.edges.Pairwise fun d e => d.id.toNat < e.id.toNat
  given : ∀ e ∈ g.edges, e.id.toNat < g.nextEdge
  ends : ∀ e ∈ g.edges, g.edgeIndex.ends? e.id = some (e.source, e.target)
  outgoing : ∀ id, g.edgeIndex.from_ id = (g.edges.filter fun e => e.source = id).map Edge.id
  incoming : ∀ id, g.edgeIndex.into id = (g.edges.filter fun e => e.target = id).map Edge.id

/-- Ids ascend and were given out, the index shows the edge table, and edges join vertices that are
there. -/
structure Consistent (g : Graph) : Prop where
  ascending : g.vertices.Pairwise fun v w => v.id.toNat < w.id.toNat
  given : ∀ v ∈ g.vertices, v.id.toNat < g.nextVertex
  indexed : g.EdgesIndexed
  joins : ∀ e ∈ g.edges, (∃ v ∈ g.vertices, v.id = e.source) ∧ ∃ v ∈ g.vertices, v.id = e.target

/-- Graphs that operations make from the empty one. -/
inductive Reachable : Graph → Prop
  | empty : Reachable .empty
  | addVertex {g : Graph} (label : String) (properties : Properties) (before : Reachable g) :
      Reachable (g.addVertex label properties).2
  | addEdge {g after : Graph} {label : String} {source target : VertexId}
      {properties : Properties} {id : EdgeId} (before : Reachable g)
      (added : g.addEdge label source target properties = .ok (id, after)) : Reachable after
  | changeVertex {g after : Graph} {id : VertexId} {change : Properties → Properties}
      (before : Reachable g) (changed : g.changeVertex id change = .ok after) : Reachable after
  | changeEdge {g after : Graph} {id : EdgeId} {change : Properties → Properties}
      (before : Reachable g) (changed : g.changeEdge id change = .ok after) : Reachable after
  | removeEdge {g : Graph} (id : EdgeId) (before : Reachable g) : Reachable (g.removeEdge id)
  | removeVertex {g : Graph} (id : VertexId) (before : Reachable g) : Reachable (g.removeVertex id)

theorem hasVertex_iff {g : Graph} {id : VertexId} :
    g.hasVertex id = true ↔ ∃ v ∈ g.vertices, v.id = id := by
  simp [hasVertex, vertex?, List.find?_isSome]

namespace EdgesIndexed

variable {g : Graph}

theorem ids_nodup (indexed : g.EdgesIndexed) : (g.edges.map Edge.id).Nodup := by
  rw [List.Nodup, List.pairwise_map]
  exact indexed.ascending.imp fun below same => Nat.ne_of_lt below (congrArg EdgeId.toNat same)

theorem distinct (indexed : g.EdgesIndexed) {d e : Edge} (first : d ∈ g.edges)
    (second : e ∈ g.edges) (same : d.id = e.id) : d = e :=
  List.inj_on_of_nodup_map indexed.ids_nodup first second same

theorem edge?_eq (indexed : g.EdgesIndexed) {e : Edge} (member : e ∈ g.edges) :
    g.edge? e.id = some e := by
  cases found : g.edge? e.id with
  | none =>
      have absent := List.find?_eq_none.mp found e member
      simp at absent
  | some other =>
      have same : other.id = e.id := by simpa using List.find?_some found
      rw [indexed.distinct (List.mem_of_find?_eq_some found) member same]

theorem lookUp (indexed : g.EdgesIndexed) {edges : List Edge} (stored : ∀ e ∈ edges, e ∈ g.edges) :
    (edges.map Edge.id).filterMap g.edge? = edges := by
  induction edges with
  | nil => rfl
  | cons e rest ih =>
      have first := indexed.edge?_eq (stored e (by simp))
      rw [List.map_cons, List.filterMap_cons, first]
      simp [ih fun other member => stored other (by simp [member])]

theorem edgesFrom_eq (indexed : g.EdgesIndexed) (id : VertexId) :
    g.edgesFrom id = g.edges.filter fun e => e.source = id := by
  rw [edgesFrom, indexed.outgoing]
  exact indexed.lookUp fun e member => (List.mem_filter.mp member).1

theorem edgesInto_eq (indexed : g.EdgesIndexed) (id : VertexId) :
    g.edgesInto id = g.edges.filter fun e => e.target = id := by
  rw [edgesInto, indexed.incoming]
  exact indexed.lookUp fun e member => (List.mem_filter.mp member).1

theorem filter_ids (edges : List Edge) (id : EdgeId) (wanted : Edge → Bool) :
    (((edges.filter (·.id != id)).filter wanted).map Edge.id) =
      ((edges.filter wanted).map Edge.id).filter (· != id) := by
  rw [List.filter_map, List.filter_filter, List.filter_filter]
  congr 2
  funext e
  exact Bool.and_comm _ _

theorem mem_removeEdge {e : Edge} {id : EdgeId} :
    e ∈ (g.removeEdge id).edges ↔ e ∈ g.edges ∧ e.id ≠ id := by
  simp [Graph.removeEdge]

/-- The edges at a vertex keep their ids when none of them goes. -/
theorem filter_ids_absent {edges : List Edge} {id : EdgeId} {wanted : Edge → Bool}
    (absent : ∀ e ∈ edges, e.id = id → wanted e = false) :
    ((edges.filter wanted).map Edge.id).filter (· != id) = (edges.filter wanted).map Edge.id := by
  rw [List.filter_eq_self]
  intro other member
  obtain ⟨e, found, rfl⟩ := List.mem_map.mp member
  obtain ⟨present, passes⟩ := List.mem_filter.mp found
  rw [bne_iff_ne]
  intro same
  rw [absent e present same] at passes
  cases passes

theorem removeEdge_absent (indexed : g.EdgesIndexed) {id : EdgeId}
    (unknown : g.edgeIndex.ends? id = none) : g.removeEdge id = g := by
  have edges : g.edges.filter (·.id != id) = g.edges := by
    rw [List.filter_eq_self]
    intro e member
    rw [bne_iff_ne]
    rintro rfl
    rw [indexed.ends e member] at unknown
    cases unknown
  have index : g.edgeIndex.remove id = g.edgeIndex := by simp [EdgeIndex.remove, unknown]
  rw [Graph.removeEdge, edges, index]

theorem removeEdge (indexed : g.EdgesIndexed) (id : EdgeId) : (g.removeEdge id).EdgesIndexed := by
  cases known : g.edgeIndex.ends? id with
  | none => rwa [indexed.removeEdge_absent known]
  | some ends =>
      obtain ⟨source, target⟩ := ends
      have joins : ∀ e ∈ g.edges, e.id = id → e.source = source ∧ e.target = target := by
        rintro e member rfl
        rw [indexed.ends e member] at known
        exact Prod.mk.inj (Option.some.inj known)
      refine ⟨indexed.ascending.filter _,
        fun e member => indexed.given e (mem_removeEdge.mp member).1, ?_, ?_, ?_⟩
      · intro e member
        obtain ⟨stored, different⟩ := mem_removeEdge.mp member
        rw [Graph.removeEdge, EdgeIndex.ends?_remove different]
        exact indexed.ends e stored
      · intro v
        rw [Graph.removeEdge, filter_ids, EdgeIndex.from_remove known, indexed.outgoing]
        by_cases here : v = source
        · rw [if_pos here]
        · rw [if_neg here, filter_ids_absent fun e member same => ?_]
          exact decide_eq_false fun at_ => here (at_.symm.trans (joins e member same).1)
      · intro v
        rw [Graph.removeEdge, filter_ids, EdgeIndex.into_remove known, indexed.incoming]
        by_cases here : v = target
        · rw [if_pos here]
        · rw [if_neg here, filter_ids_absent fun e member same => ?_]
          exact decide_eq_false fun at_ => here (at_.symm.trans (joins e member same).2)

/-- Removing several edges keeps the vertices, and the edges that are none of them. -/
theorem removeEdges (indexed : g.EdgesIndexed) (ids : List EdgeId) :
    (ids.foldl Graph.removeEdge g).EdgesIndexed ∧
      (ids.foldl Graph.removeEdge g).vertices = g.vertices ∧
      (ids.foldl Graph.removeEdge g).nextVertex = g.nextVertex ∧
      ∀ e ∈ (ids.foldl Graph.removeEdge g).edges, e ∈ g.edges ∧ e.id ∉ ids := by
  induction ids generalizing g with
  | nil => exact ⟨indexed, rfl, rfl, fun e member => ⟨member, List.not_mem_nil⟩⟩
  | cons id rest ih =>
      obtain ⟨after, vertices, given, edges⟩ := ih (indexed.removeEdge id)
      refine ⟨after, vertices, given, fun e member => ?_⟩
      obtain ⟨kept, others⟩ := edges e member
      obtain ⟨stored, different⟩ := mem_removeEdge.mp kept
      exact ⟨stored, by simp [different, others]⟩

end EdgesIndexed

namespace Consistent

variable {g : Graph}

theorem ids_nodup (consistent : g.Consistent) : (g.vertices.map Vertex.id).Nodup := by
  rw [List.Nodup, List.pairwise_map]
  exact consistent.ascending.imp fun below same =>
    Nat.ne_of_lt below (congrArg VertexId.toNat same)

theorem distinct (consistent : g.Consistent) {v w : Vertex} (first : v ∈ g.vertices)
    (second : w ∈ g.vertices) (same : v.id = w.id) : v = w :=
  List.inj_on_of_nodup_map consistent.ids_nodup first second same

theorem vertex?_eq (consistent : g.Consistent) {v : Vertex} (member : v ∈ g.vertices) :
    g.vertex? v.id = some v := by
  cases found : g.vertex? v.id with
  | none =>
      have absent := List.find?_eq_none.mp found v member
      simp at absent
  | some other =>
      have same : other.id = v.id := by simpa using List.find?_some found
      rw [consistent.distinct (List.mem_of_find?_eq_some found) member same]

theorem empty : Consistent .empty where
  ascending := .nil
  given := by simp [Graph.empty]
  indexed := ⟨.nil, by simp [Graph.empty], by simp [Graph.empty], fun _ => rfl, fun _ => rfl⟩
  joins := by simp [Graph.empty]

theorem addVertex (consistent : g.Consistent) (label : String) (properties : Properties) :
    (g.addVertex label properties).2.Consistent where
  ascending := by
    refine List.pairwise_append.mpr ⟨consistent.ascending, List.pairwise_singleton _ _, ?_⟩
    intro v member w new
    rw [List.mem_singleton.mp new]
    exact consistent.given v member
  given := by
    intro v member
    change v.id.toNat < g.nextVertex + 1
    rcases List.mem_append.mp member with old | new
    · have below := consistent.given v old
      omega
    · rw [List.mem_singleton.mp new]
      exact Nat.lt_succ_self _
  indexed := ⟨consistent.indexed.ascending, consistent.indexed.given, consistent.indexed.ends,
    consistent.indexed.outgoing, consistent.indexed.incoming⟩
  joins := by
    intro e member
    obtain ⟨⟨v, source, isSource⟩, w, target, isTarget⟩ := consistent.joins e member
    exact ⟨⟨v, List.mem_append_left _ source, isSource⟩, w, List.mem_append_left _ target, isTarget⟩

theorem addEdge (consistent : g.Consistent) {label : String} {source target : VertexId}
    {properties : Properties} {id : EdgeId} {after : Graph}
    (added : g.addEdge label source target properties = .ok (id, after)) : after.Consistent := by
  unfold Graph.addEdge at added
  split_ifs at added with noSource noTarget
  cases added
  have unused : ∀ e ∈ g.edges, e.id ≠ ⟨g.nextEdge⟩ := by
    intro e member same
    have below := consistent.indexed.given e member
    rw [same] at below
    exact Nat.lt_irrefl _ below
  refine ⟨consistent.ascending, consistent.given, ⟨?_, ?_, ?_, ?_, ?_⟩, ?_⟩
  · refine List.pairwise_append.mpr
      ⟨consistent.indexed.ascending, List.pairwise_singleton _ _, ?_⟩
    intro e member d new
    rw [List.mem_singleton.mp new]
    exact consistent.indexed.given e member
  · intro e member
    change e.id.toNat < g.nextEdge + 1
    rcases List.mem_append.mp member with old | new
    · have below := consistent.indexed.given e old
      omega
    · rw [List.mem_singleton.mp new]
      exact Nat.lt_succ_self _
  · intro e member
    rw [EdgeIndex.ends?_add]
    rcases List.mem_append.mp member with old | new
    · rw [if_neg (unused e old)]
      exact consistent.indexed.ends e old
    · rw [List.mem_singleton.mp new, if_pos rfl]
  · intro v
    rw [EdgeIndex.from_add, List.filter_append, List.map_append]
    by_cases here : v = source
    · rw [if_pos here, consistent.indexed.outgoing, here]
      simp
    · rw [if_neg here, consistent.indexed.outgoing]
      simp [Ne.symm here]
  · intro v
    rw [EdgeIndex.into_add, List.filter_append, List.map_append]
    by_cases here : v = target
    · rw [if_pos here, consistent.indexed.incoming, here]
      simp
    · rw [if_neg here, consistent.indexed.incoming]
      simp [Ne.symm here]
  · intro e member
    rcases List.mem_append.mp member with old | new
    · exact consistent.joins e old
    · rw [List.mem_singleton.mp new]
      have found : g.hasVertex source = true := by simpa using noSource
      have foundTarget : g.hasVertex target = true := by simpa using noTarget
      exact ⟨hasVertex_iff.mp found, hasVertex_iff.mp foundTarget⟩

theorem changeVertex (consistent : g.Consistent) {id : VertexId}
    {change : Properties → Properties} {after : Graph}
    (changed : g.changeVertex id change = .ok after) : after.Consistent := by
  unfold Graph.changeVertex at changed
  split_ifs at changed
  cases changed
  have sameId : ∀ v : Vertex,
      (if v.id = id then { v with properties := change v.properties } else v).id = v.id := by
    intro v
    split_ifs <;> rfl
  refine ⟨?_, ?_, ⟨consistent.indexed.ascending, consistent.indexed.given,
    consistent.indexed.ends, consistent.indexed.outgoing, consistent.indexed.incoming⟩, ?_⟩
  · rw [List.pairwise_map]
    exact consistent.ascending.imp fun below => by rwa [sameId, sameId]
  · intro v member
    obtain ⟨old, stored, rfl⟩ := List.mem_map.mp member
    rw [sameId]
    exact consistent.given old stored
  · intro e member
    obtain ⟨⟨v, source, isSource⟩, w, target, isTarget⟩ := consistent.joins e member
    exact ⟨⟨_, List.mem_map_of_mem source, (sameId v).trans isSource⟩,
      _, List.mem_map_of_mem target, (sameId w).trans isTarget⟩

theorem changeEdge (consistent : g.Consistent) {id : EdgeId}
    {change : Properties → Properties} {after : Graph}
    (changed : g.changeEdge id change = .ok after) : after.Consistent := by
  unfold Graph.changeEdge at changed
  split_ifs at changed
  cases changed
  have same : ∀ e : Edge,
      let new := if e.id = id then { e with properties := change e.properties } else e
      new.id = e.id ∧ new.source = e.source ∧ new.target = e.target := by
    intro e
    dsimp only
    split_ifs <;> exact ⟨rfl, rfl, rfl⟩
  have ids : ∀ (wanted other : Edge → Bool), (∀ e ∈ g.edges, wanted
      (if e.id = id then { e with properties := change e.properties } else e) = other e) →
      ((g.edges.map fun e => if e.id = id then { e with properties := change e.properties }
        else e).filter wanted).map Edge.id = (g.edges.filter other).map Edge.id := by
    intro wanted other agree
    rw [List.filter_map, List.map_map]
    have filtered : g.edges.filter (wanted ∘ fun e =>
        if e.id = id then { e with properties := change e.properties } else e) =
        g.edges.filter other := List.filter_congr agree
    rw [filtered]
    exact List.map_congr_left fun e _ => (same e).1
  refine ⟨consistent.ascending, consistent.given, ⟨?_, ?_, ?_, ?_, ?_⟩, ?_⟩
  · rw [List.pairwise_map]
    exact consistent.indexed.ascending.imp fun {d e} below => by rwa [(same d).1, (same e).1]
  · intro e member
    obtain ⟨old, stored, rfl⟩ := List.mem_map.mp member
    rw [(same old).1]
    exact consistent.indexed.given old stored
  · intro e member
    obtain ⟨old, stored, rfl⟩ := List.mem_map.mp member
    rw [(same old).1, (same old).2.1, (same old).2.2]
    exact consistent.indexed.ends old stored
  · intro v
    rw [ids _ _ fun e _ => by rw [(same e).2.1]]
    exact consistent.indexed.outgoing v
  · intro v
    rw [ids _ _ fun e _ => by rw [(same e).2.2]]
    exact consistent.indexed.incoming v
  · intro e member
    obtain ⟨old, stored, rfl⟩ := List.mem_map.mp member
    rw [(same old).2.1, (same old).2.2]
    exact consistent.joins old stored

theorem removeEdge (consistent : g.Consistent) (id : EdgeId) : (g.removeEdge id).Consistent where
  ascending := consistent.ascending
  given := consistent.given
  indexed := consistent.indexed.removeEdge id
  joins := fun e member => consistent.joins e (List.mem_filter.mp member).1

/-- The edges at the vertex go with it, so none is left without an end. -/
theorem removeVertex (consistent : g.Consistent) (id : VertexId) :
    (g.removeVertex id).Consistent := by
  obtain ⟨index, removed⟩ : ∃ index, g.removeVertex id =
      (g.edgeIndex.from_ id ++ g.edgeIndex.into id).foldl Graph.removeEdge { g with
        vertices := g.vertices.filter (·.id != id)
        vertexIndex := index } := ⟨_, rfl⟩
  rw [removed]
  have indexed : EdgesIndexed { g with
      vertices := g.vertices.filter (·.id != id)
      vertexIndex := index } :=
    ⟨consistent.indexed.ascending, consistent.indexed.given, consistent.indexed.ends,
      consistent.indexed.outgoing, consistent.indexed.incoming⟩
  obtain ⟨after, vertices, given, edges⟩ :=
    indexed.removeEdges (g.edgeIndex.from_ id ++ g.edgeIndex.into id)
  refine ⟨?_, ?_, after, ?_⟩
  · rw [vertices]
    exact consistent.ascending.filter _
  · rw [vertices, given]
    exact fun v member => consistent.given v (List.mem_filter.mp member).1
  · intro e member
    obtain ⟨stored, apart⟩ := edges e member
    rw [List.mem_append, not_or, consistent.indexed.outgoing, consistent.indexed.incoming] at apart
    have away : e.source ≠ id ∧ e.target ≠ id := by
      refine ⟨fun here => apart.1 ?_, fun here => apart.2 ?_⟩
      · exact List.mem_map_of_mem (List.mem_filter.mpr ⟨stored, decide_eq_true here⟩)
      · exact List.mem_map_of_mem (List.mem_filter.mpr ⟨stored, decide_eq_true here⟩)
    obtain ⟨⟨v, source, isSource⟩, w, target, isTarget⟩ := consistent.joins e stored
    rw [vertices]
    refine ⟨⟨v, List.mem_filter.mpr ⟨source, ?_⟩, isSource⟩,
      w, List.mem_filter.mpr ⟨target, ?_⟩, isTarget⟩
    · rw [bne_iff_ne, isSource]
      exact away.1
    · rw [bne_iff_ne, isTarget]
      exact away.2

end Consistent

/-- Operations keep a graph consistent, so every graph that they make is. -/
theorem Reachable.consistent {g : Graph} (reachable : g.Reachable) : g.Consistent := by
  induction reachable with
  | empty => exact .empty
  | addVertex label properties _ ih => exact ih.addVertex label properties
  | addEdge _ added ih => exact ih.addEdge added
  | changeVertex _ changed ih => exact ih.changeVertex changed
  | changeEdge _ changed ih => exact ih.changeEdge changed
  | removeEdge id _ ih => exact ih.removeEdge id
  | removeVertex id _ ih => exact ih.removeVertex id

/-- Two vertices, and an edge from the first to the second. -/
def oneEdge : Graph :=
  let vertices := (((empty.addVertex "p" []).2).addVertex "p" []).2
  match vertices.addEdge "k" ⟨1⟩ ⟨2⟩ [] with
  | .ok (_, g) => g
  | .error _ => vertices

theorem oneEdge_reachable : oneEdge.Reachable := by
  have vertices := Reachable.addVertex "p" [] (Reachable.addVertex "p" [] Reachable.empty)
  have added : (((empty.addVertex "p" []).2).addVertex "p" []).2.addEdge "k" ⟨1⟩ ⟨2⟩ [] =
      .ok (⟨1⟩, oneEdge) := rfl
  exact vertices.addEdge added

end Graph

end PropertyGraph
