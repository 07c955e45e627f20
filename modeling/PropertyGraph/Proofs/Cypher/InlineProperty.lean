import PropertyGraph.Proofs.Cypher.Finding
import PropertyGraph.Proofs.Cypher.Variables

/-!
One property asked for at the end of MATCH clauses: inside the pattern of a node or of a
relationship, or in the condition behind it.
-/

namespace PropertyGraph

/-- A place where a pattern may ask for one property: a node, or a relationship to a node of which
nothing is asked. -/
inductive PropertyPlace where
  | node (name : String)
  | relationship (start : NodePattern) (name : String) (types : List String) (direction : Direction)
      (finish : Option String)

namespace PropertyPlace

def name : PropertyPlace → String
  | .node name => name
  | .relationship _ name _ _ _ => name

def path (properties : List (String × Expression)) : PropertyPlace → PathPattern
  | .node name => ⟨⟨some name, [], properties⟩, []⟩
  | .relationship start name types direction finish =>
      ⟨start, [(⟨some name, types, properties, direction, none⟩, ⟨finish, [], []⟩)]⟩

/-- A clause that asks for the property in the pattern. -/
def inline (place : PropertyPlace) (key : String) (e : Expression) : MatchClause :=
  ⟨[place.path [(key, e)]], none⟩

/-- A clause that compares the property in its condition. -/
def compared (place : PropertyPlace) (key : String) (e : Expression) : MatchClause :=
  ⟨[place.path []], some (.binary (.property place.name key) .eq e)⟩

def boundBefore (place : PropertyPlace) (before : List MatchClause) : List String :=
  before.flatMap MatchClause.variables ++
    match place with
    | .node _ => []
    | .relationship start _ _ _ _ => start.name.toList

/-- The node at the end of a relationship has no name that is bound already. -/
def EndsFresh (place : PropertyPlace) (before : List MatchClause) : Prop :=
  match place with
  | .node _ => True
  | .relationship _ name _ _ finish =>
      ∀ other ∈ finish, other ≠ name ∧ other ∉ place.boundBefore before

end PropertyPlace

namespace Cypher

open Exec Plan Script Scripting

variable {g : Graph} {s : Scope} {b : Bindings} {key : String} {e : Expression}

theorem inline_run (place : PropertyPlace) (s : Scope) :
    (matchClause (place.inline key e)).run s = (matchPath (place.path [(key, e)])).run s := by
  simp [matchClause, PropertyPlace.inline, matchPaths]

theorem compared_run (place : PropertyPlace) (s : Scope) :
    (matchClause (place.compared key e)).run s =
      (matchPath (place.path [])).run s >>= fun (path, after) =>
        (fun condition => (path ++ [.nested .where_ [condition]], after)) <$>
          conditionScript after.bindings (.binary (.property place.name key) .eq e) := by
  simp [matchClause, PropertyPlace.compared, matchPaths]

/-- A traverser that has labelled an element, and has not changed what it knew. -/
theorem Points.of_labels {store : Store} {t u : Traverser} {b' : Bindings} {name : String}
    {kind other : NameKind} (stores : store.graph.StoresNoUnknown) (stands : t.Stands b kind)
    (labels : u.Stands b' other) (declared : Dictionary.get? name b' = some kind)
    (single : kind ≠ .relationships) (last : (u.labelled name).getLast? = some t.object)
    (kept : ∀ name ∈ e.names, Dictionary.get? name b = Dictionary.get? name b' ∧
      t.labelled name = u.labelled name) :
    Points kind b b' name e ⟨store, []⟩ t u where
  stores := stores
  element := stands.here
  covers := stands.knows.covers rfl
  coversToo := labels.knows.covers rfl
  finds := by
    rw [labels.knows.seenFrom_eq rfl]
    cases kind with
    | relationships => exact absurd rfl single
    | _ => simpa [Environment.onPath, declared] using last
  same := by
    rw [stands.knows.seenFrom_eq rfl, labels.knows.seenFrom_eq rfl]
    refine ⟨rfl, fun name member => ?_⟩
    obtain ⟨bound, labelled⟩ := kept name member
    simp only [Environment.onPath, bound, labelled]

/-- Behind the same operations, both scripts have the same results on a graph, whatever follows. -/
def Interchangeable (g : Graph) (found : Ops) (left right : Ops × Scope) : Prop :=
  left.2 = right.2 ∧ ∀ later, Follow .whole later →
    Alike (Live.EquivalentOn g) (performAll (found ++ (left.1 ++ later)) Live.onGraph)
      (performAll (found ++ (right.1 ++ later)) Live.onGraph)

theorem performs_behind {front left right : Ops} (behind : ∀ l : Live,
      performAll front Live.onGraph = .ok l →
        Alike (Live.EquivalentOn g) (performAll left l) (performAll right l)) :
    Alike (Live.EquivalentOn g) (performAll (front ++ left) Live.onGraph)
      (performAll (front ++ right) Live.onGraph) := by
  rw [performAll_append, performAll_append]
  cases performed : (performAll front Live.onGraph : Except BuildFault Live) with
  | error fault => exact .error fault
  | ok l => exact behind l performed

theorem filterOps_one (b : Bindings) (key : String) (e : Expression) :
    filterOps b [(key, e)] = (fun op => [op]) <$> filterOp b key e := by
  rw [filterOps, List.mapM_cons, List.mapM_nil]
  cases filterOp b key e <;> rfl

theorem node_run (name : String) (properties : List (String × Expression)) (s : Scope) :
    (matchPath ((PropertyPlace.node name).path properties)).run s =
      match Dictionary.get? name s.bindings with
      | none => (fun filters => (.vertices :: filters ++ labelOps (some name),
          { s with started := true }.declared .node (some name))) <$>
            filterOps s.bindings properties
      | some .node => (fun filters => (.select [name] :: filters, s)) <$>
          filterOps s.bindings properties
      | some _ => .error (.declaredAsRelationship name) := by
  have plain (node : NodePattern) : (matchPath ⟨node, []⟩).run s = (matchStart node).run s := by
    simp [matchPath, matchChain]
  have constraints : constraintOps s.bindings ⟨some name, [], properties⟩ =
      filterOps s.bindings properties := by
    simp [constraintOps]
  rw [PropertyPlace.path, plain, matchStart_run, constraints]
  rfl

/-- The filter of a pattern behind what is found, and the condition behind the rest of the
pattern. -/
theorem property_alike (front : Ops) (after : Scope) {found operations : Ops} {moves : List Stage}
    {kind : NameKind} {name : String} {Here : Traverser → Prop} {move : Traverser → Traverser}
    (declared : Dictionary.get? name after.bindings = some kind) (single : kind ≠ .relationships)
    (kept : ∀ other ∈ e.names, Dictionary.get? other b = Dictionary.get? other after.bindings)
    (finds : ∀ l, performAll (found ++ front) Live.onGraph = .ok l → Finding g Here l)
    (builds : Builds operations moves) (moved : MovesEach g Here moves move)
    (points : ∀ store t, store.graph = g → Here t →
      Points kind b after.bindings name e ⟨store, []⟩ t (move t)) :
    Alike (Interchangeable g found)
      ((fun op => (front ++ op :: operations, after)) <$> filterOp b key e)
      ((fun condition => (front ++ operations ++ [.nested .where_ [condition]], after)) <$>
        conditionScript after.bindings (.binary (.property name key) .eq e)) := by
  rw [map_eq_pure_bind, map_eq_pure_bind]
  refine (filter_and_condition declared single kept).bind fun op condition alike => ?_
  refine .ok ⟨rfl, fun later follows => ?_⟩
  have both := performs_behind fun l performed =>
    (finds l performed).filters_early alike builds moved points follows
  simpa only [List.append_assoc, List.cons_append, List.nil_append] using both

section Node

variable {before : List MatchClause} (fits : ∀ m ∈ before, m.Fits) {found : Ops}
  (compiled : (matchClauses before).run .empty = .ok (found, s)) {name : String}
  (stores : g.StoresNoUnknown)
include fits compiled stores

/-- A node that is new is labelled behind its constraints, and before the condition. -/
theorem new_node_alike (known : Dictionary.get? name s.bindings = none)
    (apart : ∀ other ∈ e.names, other ≠ name) :
    Alike (Interchangeable g found)
      ((fun op => (.vertices :: op :: labelOps (some name),
        { s with started := true }.declared .node (some name))) <$> filterOp s.bindings key e)
      ((fun condition => (.vertices :: labelOps (some name) ++ [.nested .where_ [condition]],
          { s with started := true }.declared .node (some name))) <$>
        conditionScript (s.declared .node (some name)).bindings
          (.binary (.property name key) .eq e)) := by
  have away (other : String) (member : other ∈ e.names) : other ∉ (some name).toList := by
    simpa using apart other member
  have kept (other : String) (member : other ∈ e.names) : Dictionary.get? other s.bindings =
      Dictionary.get? other (s.declared .node (some name)).bindings :=
    (get?_declared_of_notMem s .node (away other member)).symm
  have anywhere : (matchStart ⟨none, [], []⟩).run s =
      .ok ([.vertices], { s with started := true }) := rfl
  refine property_alike [.vertices] ({ s with started := true }.declared .node (some name))
    (get?_declared ..) (by decide) kept
    (fun l performed => .started fits compiled anywhere performed) (labelOps_builds (some name))
    (moves_labelAs (some name)) fun store t here stands => ?_
  subst here
  exact .of_labels stores stands (stands_labelAs stands (some name) known stands.here)
    (get?_declared s .node name) (by decide) (Traverser.last_addLabel ..) fun other member =>
      ⟨kept other member, (labelled_labelAs (some name) (away other member) t).symm⟩

theorem bound_node_alike (known : Dictionary.get? name s.bindings = some .node) :
    Alike (Interchangeable g found)
      ((fun op => ([.select [name], op], s)) <$> filterOp s.bindings key e)
      ((fun condition => ([.select [name], .nested .where_ [condition]], s)) <$>
        conditionScript s.bindings (.binary (.property name key) .eq e)) := by
  have some_ : before ≠ [] := by
    rintro rfl
    cases compiled
    cases known
  have finds (l : Live) :
      performAll (found ++ [.select [name]]) Live.onGraph = .ok l →
        Finding g (BackAt s.bindings name) l :=
    .onward (fun _ performed => .matched fits some_ compiled performed) fun _ finding =>
      finding.select known
  refine property_alike [.select [name]] s known (by decide) (fun _ _ => rfl) finds .nil .nil
    fun store t here back => ?_
  subst here
  exact .of_labels stores back.stands back.stands known (by decide) back.last fun _ _ => ⟨rfl, rfl⟩

theorem node_alike
    (names : ∀ other ∈ e.names, other ∈ (PropertyPlace.node name).boundBefore before) :
    Alike (Interchangeable g found) ((matchClause ((PropertyPlace.node name).inline key e)).run s)
      ((matchClause ((PropertyPlace.node name).compared key e)).run s) := by
  have nothing : filterOps s.bindings [] = .ok [] := rfl
  rw [inline_run, compared_run, node_run, node_run]
  cases known : Dictionary.get? name s.bindings with
  | none =>
      simp only [filterOps_one, nothing, map_ok, ok_bind]
      rw [Functor.map_map]
      refine new_node_alike fits compiled stores known fun other member => ?_
      rintro rfl
      have declared := (matchClauses_bind_variables before _ _ _ compiled other).mpr
        (.inr (by simpa [PropertyPlace.boundBefore] using names other member))
      rw [known] at declared
      cases declared
  | some kind =>
      cases kind with
      | node =>
          simp only [filterOps_one, nothing, map_ok, ok_bind]
          rw [Functor.map_map]
          exact bound_node_alike fits compiled stores known
      | relationship => exact .error _
      | relationships => exact .error _

end Node

section Relationship

variable {start : NodePattern} {name : String} {types : List String} {d : Direction}
  {finish : Option String} {first : Ops} {middle : Scope}

/-- What stands behind the filters of the relationship. -/
def onwardOps (d : Direction) (name : String) (finish : Option String) : Ops :=
  labelOps (some name) ++ ([vertexStep d] ++ labelOps finish)

def onwardScope (s : Scope) (name : String) (finish : Option String) : Scope :=
  (s.declared .relationship (some name)).declared .node finish

theorem relationship_run (properties : List (String × Expression))
    (started : (matchStart start).run s = .ok (first, middle))
    (new : Dictionary.get? name middle.bindings = none)
    (newEnd : boundKind? (middle.declared .relationship (some name)).bindings finish = none) :
    (matchPath ((PropertyPlace.relationship start name types d finish).path properties)).run s =
      (fun filters => (first ++ [edgeStep d types] ++ (filters ++ onwardOps d name finish),
        onwardScope middle name finish)) <$> filterOps middle.bindings properties := by
  have unbound : boundKind? middle.bindings (some name) = none := new
  rw [PropertyPlace.path, matchPath, StateT.run_bind, started, ok_bind, matchChain, StateT.run_bind,
    StateT.run_bind, matchRelationship_run, unbound]
  dsimp only
  cases filterOps middle.bindings properties with
  | error fault => rfl
  | ok filters =>
      have nothing (b : Bindings) : constraintOps b ⟨finish, [], []⟩ = .ok [] := rfl
      simp only [map_ok, ok_bind, StateT.run_bind, matchEnd_run, newEnd, nothing, matchChain,
        StateT.run_pure, pure_bind, onwardOps, List.append_assoc, List.cons_append, List.nil_append,
        List.append_nil]
      rfl

theorem relationship_refused (properties : List (String × Expression))
    (started : (matchStart start).run s = .ok (first, middle)) {kind : NameKind}
    (bound : Dictionary.get? name middle.bindings = some kind) :
    (matchPath ((PropertyPlace.relationship start name types d finish).path properties)).run s =
      .error (.relationshipDeclared name) := by
  have known : boundKind? middle.bindings (some name) = some kind := bound
  rw [PropertyPlace.path, matchPath, StateT.run_bind, started, ok_bind, matchChain, StateT.run_bind,
    StateT.run_bind, matchRelationship_run, known]
  rfl

/-- The edge is labelled, then the vertex ahead. -/
def hopped (g : Graph) (d : Direction) (name : String) (finish : Option String) (t : Traverser) :
    Traverser :=
  let labelled := t.addLabel name
  labelAs finish (labelled.split (vertexAhead g d labelled))

theorem moves_hopped (g : Graph) (d : Direction) (finish : Option String)
    (new : Dictionary.get? name s.bindings = none) :
    ∃ moves, Builds (onwardOps d name finish) moves ∧
      MovesEach g (AtEdge g d s.bindings) moves (hopped g d name finish) :=
  ⟨_, (labelOps_builds (some name)).append ((vertexStep_builds d).append (labelOps_builds finish)),
    (moves_labelAs (some name)).append (fun _ at_ => at_.declare new)
      ((moves_ahead d).append (fun _ _ => trivial)
        (moves_labelAs finish : MovesEach g (fun _ => True) _ _))⟩

theorem hopped_stands {t : Traverser} (at_ : AtEdge g d s.bindings t)
    (new : Dictionary.get? name s.bindings = none)
    (newEnd : boundKind? (s.declared .relationship (some name)).bindings finish = none) :
    (hopped g d name finish t).Stands (onwardScope s name finish).bindings .node := by
  have labelled := at_.declare new
  obtain ⟨w, ahead⟩ := labelled.vertexAhead
  refine stands_labelAs ?_ finish newEnd ?_
  · rw [ahead]
    exact labelled.stands.vertex w.ref
  · rw [ahead]
    exact ⟨w.ref, rfl⟩

theorem bound_before {before : List MatchClause} {found : Ops}
    (compiled : (matchClauses before).run .empty = .ok (found, s))
    (started : (matchStart start).run s = .ok (first, middle)) (other : String) :
    (Dictionary.get? other middle.bindings).isSome ↔
      other ∈ (PropertyPlace.relationship start name types d finish).boundBefore before := by
  have earlier := matchClauses_bind_variables before _ _ _ compiled other
  rw [matchStart_binds start _ _ _ started other, earlier, PropertyPlace.boundBefore,
    List.mem_append]
  simp [Scope.empty, Dictionary.get?]

variable {before : List MatchClause} (fits : ∀ m ∈ before, m.Fits) {found : Ops}
  (compiled : (matchClauses before).run .empty = .ok (found, s)) (consistent : g.Consistent)
  (started : (matchStart start).run s = .ok (first, middle))
include fits compiled consistent started

theorem finding_edges
    (performed : performAll (found ++ (first ++ [edgeStep d types])) Live.onGraph = .ok l) :
    Finding g (AtEdge g d middle.bindings) l := by
  rw [← List.append_assoc] at performed
  exact .onward (fun _ reached => .started fits compiled started reached)
    (fun _ finding => finding.edges consistent d types) performed

theorem new_relationship_alike (stores : g.StoresNoUnknown)
    (new : Dictionary.get? name middle.bindings = none)
    (newEnd : boundKind? (middle.declared .relationship (some name)).bindings finish = none)
    (apart : ∀ other ∈ e.names, other ≠ name ∧ other ∉ finish.toList)
    (distinct : name ∉ finish.toList) :
    Alike (Interchangeable g found)
      ((fun op => (first ++ [edgeStep d types] ++ op :: onwardOps d name finish,
        onwardScope middle name finish)) <$> filterOp middle.bindings key e)
      ((fun condition =>
          (first ++ [edgeStep d types] ++ onwardOps d name finish ++ [.nested .where_ [condition]],
            onwardScope middle name finish)) <$>
        conditionScript (onwardScope middle name finish).bindings
          (.binary (.property name key) .eq e)) := by
  have declared : Dictionary.get? name (onwardScope middle name finish).bindings =
      some .relationship :=
    (get?_declared_of_notMem _ .node distinct).trans (get?_declared ..)
  have kept (other : String) (member : other ∈ e.names) : Dictionary.get? other middle.bindings =
      Dictionary.get? other (onwardScope middle name finish).bindings := by
    obtain ⟨new, behind⟩ := apart other member
    have away : other ∉ (some name).toList := by simpa using new
    exact ((get?_declared_of_notMem _ .node behind).trans
      (get?_declared_of_notMem middle .relationship away)).symm
  have labels (other : String) (away : other ∉ finish.toList) (t : Traverser) :
      (hopped g d name finish t).labelled other = (t.addLabel name).labelled other :=
    (labelled_labelAs finish away _).trans (Traverser.labelled_split ..)
  obtain ⟨moves, builds, moved⟩ := moves_hopped g d finish new
  refine property_alike (first ++ [edgeStep d types]) (onwardScope middle name finish) declared
    (by decide) kept
    (fun l performed => finding_edges fits compiled consistent started performed) builds moved
    fun store t here at_ => ?_
  subst here
  refine .of_labels stores at_.stands (hopped_stands at_ new newEnd) declared (by decide) ?_
    fun other member => ⟨kept other member, ?_⟩
  · rw [labels name distinct]
    exact Traverser.last_addLabel ..
  · rw [labels other (apart other member).2]
    exact (Traverser.labelled_addLabel_of_ne t (apart other member).1).symm

end Relationship

theorem relationship_alike {before : List MatchClause} (fits : ∀ m ∈ before, m.Fits) {found : Ops}
    (compiled : (matchClauses before).run .empty = .ok (found, s)) (consistent : g.Consistent)
    (stores : g.StoresNoUnknown) {start : NodePattern} {name : String} {types : List String}
    {d : Direction} {finish : Option String}
    (names : ∀ other ∈ e.names,
      other ∈ (PropertyPlace.relationship start name types d finish).boundBefore before)
    (fresh : (PropertyPlace.relationship start name types d finish).EndsFresh before) :
    Alike (Interchangeable g found)
      ((matchClause ((PropertyPlace.relationship start name types d finish).inline key e)).run s)
      ((matchClause ((PropertyPlace.relationship start name types d finish).compared key e)).run
        s) := by
  rw [inline_run, compared_run]
  cases started : (matchStart start).run s with
  | error fault =>
      have refused (properties : List (String × Expression)) : (matchPath
          ((PropertyPlace.relationship start name types d finish).path properties)).run s =
            .error fault := by
        rw [PropertyPlace.path, matchPath, StateT.run_bind, started]
        rfl
      rw [refused, refused]
      exact .error fault
  | ok reached =>
      obtain ⟨first, middle⟩ := reached
      have bound (other : String) : (Dictionary.get? other middle.bindings).isSome ↔ other ∈
          (PropertyPlace.relationship start name types d finish).boundBefore before :=
        bound_before compiled started other
      cases known : Dictionary.get? name middle.bindings with
      | some kind =>
          rw [relationship_refused _ started known, relationship_refused _ started known]
          exact .error _
      | none =>
          have unbound {other : String} (away : other ∉ (PropertyPlace.relationship start name types
              d finish).boundBefore before) : Dictionary.get? other middle.bindings = none :=
            Option.not_isSome_iff_eq_none.mp fun there => away ((bound other).mp there)
          have newEnd : boundKind? (middle.declared .relationship (some name)).bindings finish =
              none := by
            cases finish with
            | none => rfl
            | some other =>
                obtain ⟨apart, away⟩ := fresh other rfl
                exact (Dictionary.get?_put ..).trans ((if_neg apart).trans (unbound away))
          have nothing : filterOps middle.bindings [] = .ok [] := rfl
          rw [relationship_run _ started known newEnd, relationship_run _ started known newEnd]
          simp only [filterOps_one, nothing, map_ok, ok_bind]
          rw [Functor.map_map]
          refine new_relationship_alike fits compiled consistent started stores known newEnd
            (fun other member => ⟨?_, fun last => ?_⟩) fun last => ?_
          · rintro rfl
            have there := (bound other).mpr (names other member)
            rw [known] at there
            cases there
          · exact (fresh other (Option.mem_toList.mp last)).2 (names other member)
          · exact (fresh name (Option.mem_toList.mp last)).1 rfl

/-- Wherever the property is asked for, the pattern and the condition are alike. -/
theorem place_alike {place : PropertyPlace} {before : List MatchClause}
    (fits : ∀ m ∈ before, m.Fits) {found : Ops}
    (compiled : (matchClauses before).run .empty = .ok (found, s)) (consistent : g.Consistent)
    (stores : g.StoresNoUnknown) (names : ∀ other ∈ e.names, other ∈ place.boundBefore before)
    (fresh : place.EndsFresh before) :
    Alike (Interchangeable g found) ((matchClause (place.inline key e)).run s)
      ((matchClause (place.compared key e)).run s) := by
  cases place with
  | node name => exact node_alike fits compiled stores names
  | relationship start name types d finish =>
      exact relationship_alike fits compiled consistent stores names fresh

end Cypher

end PropertyGraph
