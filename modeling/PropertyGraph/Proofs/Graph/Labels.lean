import PropertyGraph.Proofs.Graph.Consistency

/-!
Vertex table and label index of a graph agree, whatever operations it was made by. The ids under a
label are those of the vertices that have it, ascending, and the labels in use are sorted.
-/

namespace PropertyGraph

namespace Dictionary

variable {κ α : Type} [DecidableEq κ]

theorem mem_keys_put (key other : κ) (value : α) (d : Dictionary κ α) :
    other ∈ (put key value d).keys ↔ other = key ∨ other ∈ d.keys := by
  induction d with
  | nil => simp [put, keys]
  | cons entry rest ih =>
      obtain ⟨k, old⟩ := entry
      rw [put]
      split
      · next same => simp [keys, same]
      · simp only [keys, List.map_cons, List.mem_cons] at ih ⊢
        rw [ih, or_left_comm]

theorem keys_put_nodup (key : κ) (value : α) {d : Dictionary κ α} (distinct : d.keys.Nodup) :
    (put key value d).keys.Nodup := by
  induction d with
  | nil => exact List.nodup_singleton key
  | cons entry rest ih =>
      obtain ⟨k, old⟩ := entry
      obtain ⟨fresh, others⟩ := List.nodup_cons.mp distinct
      rw [put]
      split
      · exact distinct
      · next different =>
          refine List.nodup_cons.mpr ⟨fun member => ?_, ih others⟩
          rcases (mem_keys_put key k value rest).mp member with same | before
          · exact different same
          · exact fresh before

theorem keys_adjust (key : κ) (change : α → α) (d : Dictionary κ α) :
    (adjust key change d).keys = d.keys := by
  induction d with
  | nil => rfl
  | cons entry rest ih =>
      obtain ⟨k, old⟩ := entry
      rw [adjust]
      split
      · rfl
      · exact congrArg (k :: ·) ih

theorem get?_eq_some_iff {key : κ} {value : α} {d : Dictionary κ α} (distinct : d.keys.Nodup) :
    get? key d = some value ↔ (key, value) ∈ d := by
  induction d with
  | nil => simp [get?]
  | cons entry rest ih =>
      obtain ⟨k, old⟩ := entry
      obtain ⟨fresh, others⟩ := List.nodup_cons.mp distinct
      rw [get?, List.mem_cons]
      split
      · next same =>
          subst same
          have absent : (k, value) ∉ rest := fun member =>
            fresh (List.mem_map.mpr ⟨_, member, rfl⟩)
          simp [absent, eq_comm]
      · next different => simp [ih others, Ne.symm different]

end Dictionary

namespace VertexIndex

variable (index : VertexIndex) (id : VertexId) (label other : String)

theorem withLabel_add : (index.add label id).withLabel other =
    if other = label then insertAscending id (index.withLabel label)
    else index.withLabel other := by
  rw [add, withLabel, Dictionary.get?_put]
  split
  · rfl
  · rfl

theorem withLabel_remove : (index.remove id label).withLabel other =
    if other = label then (index.withLabel other).filter (· != id)
    else index.withLabel other := by
  rw [remove, withLabel, Dictionary.get?_adjust]
  split
  · rw [withLabel]
    cases Dictionary.get? other index.byLabel <;> rfl
  · rfl

theorem insertAscending_last {id : VertexId} {ids : List VertexId}
    (above : ∀ other ∈ ids, other.toNat < id.toNat) : insertAscending id ids = ids ++ [id] := by
  induction ids with
  | nil => rfl
  | cons other rest ih =>
      have below := above other List.mem_cons_self
      have different : id ≠ other := by
        rintro rfl
        exact Nat.lt_irrefl _ below
      rw [insertAscending, if_neg (by omega), if_neg different,
        ih fun another later => above another (List.mem_cons_of_mem _ later)]
      rfl

variable {index label}

/-- A label is in use as long as an id stands under it. -/
theorem mem_labels (distinct : index.byLabel.keys.Nodup) :
    label ∈ index.labels ↔ index.withLabel label ≠ [] := by
  rw [labels, List.mem_mergeSort, withLabel]
  constructor
  · intro member
    obtain ⟨⟨_, ids⟩, entry, rfl⟩ := List.mem_map.mp member
    obtain ⟨stored, used⟩ := List.mem_filter.mp entry
    rw [(Dictionary.get?_eq_some_iff distinct).mpr stored]
    simpa using used
  · intro used
    cases found : Dictionary.get? label index.byLabel with
    | none => simp [found] at used
    | some ids =>
        rw [found, Option.getD_some] at used
        have stored := (Dictionary.get?_eq_some_iff distinct).mp found
        exact List.mem_map.mpr ⟨_, List.mem_filter.mpr ⟨stored, by simpa using used⟩, rfl⟩

theorem labels_ascending (distinct : index.byLabel.keys.Nodup) :
    index.labels.Pairwise (· < ·) := by
  have used : ((index.byLabel.filter fun entry => !entry.2.isEmpty).map (·.1)).Nodup :=
    distinct.sublist (List.filter_sublist.map _)
  have apart : index.labels.Nodup := (List.mergeSort_perm _ _).nodup_iff.mpr used
  have le_iff (a b : String) : (compare a b != .gt) = true ↔ (compare a b).isLE = true := by
    cases compare a b <;> decide
  have sorted : index.labels.Pairwise fun a b => (compare a b != .gt) = true := by
    refine List.pairwise_mergeSort (fun a b c first second => ?_) (fun a b => ?_) _
    · rw [le_iff] at first second ⊢
      exact Std.TransCmp.isLE_trans first second
    · have swapped : compare b a = (compare a b).swap := Std.OrientedCmp.eq_swap
      rw [swapped]
      cases compare a b <;> rfl
  refine (sorted.and apart).imp fun {a b} both => ?_
  have less : compare a b = .lt := by
    cases known : compare a b with
    | lt => rfl
    | eq => exact absurd (Std.LawfulEqCmp.eq_of_compare known) both.2
    | gt => simp [known] at both
  exact compareOfLessAndEq_eq_lt.mp less

end VertexIndex

namespace Graph

/-- The vertex table as the label index shows it. -/
structure LabelsIndexed (g : Graph) : Prop where
  distinct : g.vertexIndex.byLabel.keys.Nodup
  listed : ∀ label, g.vertexIndex.withLabel label =
    (g.vertices.filter fun v => v.label = label).map Vertex.id

namespace LabelsIndexed

variable {g : Graph}

theorem empty : LabelsIndexed .empty := ⟨List.nodup_nil, fun _ => rfl⟩

theorem addVertex (indexed : g.LabelsIndexed) (consistent : g.Consistent) (label : String)
    (properties : Properties) : (g.addVertex label properties).2.LabelsIndexed where
  distinct := Dictionary.keys_put_nodup _ _ indexed.distinct
  listed other := by
    have above : ∀ id ∈ g.vertexIndex.withLabel label, id.toNat < g.nextVertex := by
      intro id member
      rw [indexed.listed] at member
      obtain ⟨v, found, rfl⟩ := List.mem_map.mp member
      exact consistent.given v (List.mem_filter.mp found).1
    rw [Graph.addVertex, VertexIndex.withLabel_add, VertexIndex.insertAscending_last above,
      List.filter_append, List.map_append]
    by_cases same : other = label
    · rw [if_pos same, indexed.listed, same]
      simp
    · rw [if_neg same, indexed.listed]
      simp [Ne.symm same]

theorem of_same (indexed : g.LabelsIndexed) {after : Graph}
    (index : after.vertexIndex = g.vertexIndex)
    (table : after.vertices.map (fun v => (v.id, v.label)) =
      g.vertices.map fun v => (v.id, v.label)) : after.LabelsIndexed where
  distinct := index ▸ indexed.distinct
  listed label := by
    have ids (vertices : List Vertex) :
        (vertices.filter fun v => v.label = label).map Vertex.id =
          ((vertices.map fun v => (v.id, v.label)).filter fun entry =>
            entry.2 = label).map (·.1) := by
      rw [List.filter_map, List.map_map]
      rfl
    rw [index, indexed.listed, ids, ids, table]

theorem addEdge (indexed : g.LabelsIndexed) {label : String} {source target : VertexId}
    {properties : Properties} {id : EdgeId} {after : Graph}
    (added : g.addEdge label source target properties = .ok (id, after)) :
    after.LabelsIndexed := by
  unfold Graph.addEdge at added
  split_ifs at added
  cases added
  exact indexed.of_same rfl rfl

theorem changeVertex (indexed : g.LabelsIndexed) {id : VertexId}
    {change : Properties → Properties} {after : Graph}
    (changed : g.changeVertex id change = .ok after) : after.LabelsIndexed := by
  unfold Graph.changeVertex at changed
  split_ifs at changed
  cases changed
  refine indexed.of_same rfl ?_
  rw [List.map_map]
  refine List.map_congr_left fun v _ => ?_
  rw [Function.comp_apply]
  split <;> rfl

theorem changeEdge (indexed : g.LabelsIndexed) {id : EdgeId}
    {change : Properties → Properties} {after : Graph}
    (changed : g.changeEdge id change = .ok after) : after.LabelsIndexed := by
  unfold Graph.changeEdge at changed
  split_ifs at changed
  cases changed
  exact indexed.of_same rfl rfl

theorem removeEdges (indexed : g.LabelsIndexed) (ids : List EdgeId) :
    (ids.foldl Graph.removeEdge g).LabelsIndexed := by
  induction ids generalizing g with
  | nil => exact indexed
  | cons id rest ih => exact ih (indexed.of_same rfl rfl)

theorem removeVertex (indexed : g.LabelsIndexed) (consistent : g.Consistent) (id : VertexId) :
    (g.removeVertex id).LabelsIndexed := by
  refine removeEdges (g := { g with vertices := _, vertexIndex := _ }) ?_ _
  have ids (label : String) :
      (((g.vertices.filter (·.id != id)).filter fun v => v.label = label).map Vertex.id) =
        (g.vertexIndex.withLabel label).filter (· != id) := by
    rw [indexed.listed, List.filter_map, List.filter_filter, List.filter_filter]
    congr 2
    funext v
    exact Bool.and_comm _ _
  have forgets (label : String)
      (absent : ∀ v ∈ g.vertices, v.id = id → v.label ≠ label) :
      (g.vertexIndex.withLabel label).filter (· != id) = g.vertexIndex.withLabel label := by
    rw [List.filter_eq_self, indexed.listed]
    intro other member
    obtain ⟨v, found, rfl⟩ := List.mem_map.mp member
    obtain ⟨stored, labelled⟩ := List.mem_filter.mp found
    rw [bne_iff_ne]
    exact fun same => absent v stored same (of_decide_eq_true labelled)
  cases found : g.vertex? id with
  | none =>
      refine ⟨indexed.distinct, fun label => ?_⟩
      rw [ids, forgets]
      intro v stored same
      rw [← same, consistent.vertex?_eq stored] at found
      cases found
  | some v =>
      refine ⟨?_, fun label => ?_⟩
      · change (Dictionary.adjust v.label _ g.vertexIndex.byLabel).keys.Nodup
        rw [Dictionary.keys_adjust]
        exact indexed.distinct
      · rw [ids, VertexIndex.withLabel_remove]
        split
        · rfl
        · next different =>
            rw [forgets]
            intro w stored same
            rw [← same, consistent.vertex?_eq stored] at found
            cases found
            exact Ne.symm different

end LabelsIndexed

theorem Reachable.labelsIndexed {g : Graph} (reachable : g.Reachable) : g.LabelsIndexed := by
  induction reachable with
  | empty => exact .empty
  | addVertex label properties before ih => exact ih.addVertex before.consistent label properties
  | addEdge _ added ih => exact ih.addEdge added
  | changeVertex _ changed ih => exact ih.changeVertex changed
  | changeEdge _ changed ih => exact ih.changeEdge changed
  | removeEdge id _ ih => exact ih.of_same rfl rfl
  | removeVertex id before ih => exact ih.removeVertex before.consistent id

theorem Consistent.lookUp {g : Graph} (consistent : g.Consistent) {vertices : List Vertex}
    (stored : ∀ v ∈ vertices, v ∈ g.vertices) :
    (vertices.map Vertex.id).filterMap g.vertex? = vertices := by
  induction vertices with
  | nil => rfl
  | cons v rest ih =>
      have first := consistent.vertex?_eq (stored v List.mem_cons_self)
      rw [List.map_cons, List.filterMap_cons, first]
      simp [ih fun other member => stored other (List.mem_cons_of_mem _ member)]

theorem verticesLabelled_eq {g : Graph} (reachable : g.Reachable) (label : String) :
    g.verticesLabelled label = g.vertices.filter fun v => v.label = label := by
  rw [verticesLabelled, reachable.labelsIndexed.listed]
  exact reachable.consistent.lookUp fun v member => (List.mem_filter.mp member).1

theorem mem_labels_iff {g : Graph} (reachable : g.Reachable) (label : String) :
    label ∈ g.labels ↔ ∃ v ∈ g.vertices, v.label = label := by
  have indexed := reachable.labelsIndexed
  rw [labels, VertexIndex.mem_labels indexed.distinct, indexed.listed]
  simp

end Graph

end PropertyGraph
