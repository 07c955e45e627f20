import PropertyGraph.Proofs.Client.Changing
import PropertyGraph.Proofs.Cypher.Courses
import PropertyGraph.Proofs.Cypher.EarlyFilter
import PropertyGraph.Proofs.Cypher.Matching

/-!
What the scripts of patterns find, from the clauses before to the edges at a vertex, and what
becomes of a traverser on its way to the vertex behind an edge.
-/

namespace PropertyGraph

namespace Cypher

open Exec Plan Script Scripting

variable {g : Graph} {Here There : Traverser → Prop} {s after : Scope} {b : Bindings} {l : Live}

theorem matchClauses_append (first second : List MatchClause) :
    matchClauses (first ++ second) = do
      let found ← matchClauses first
      return found ++ (← matchClauses second) := by
  induction first with
  | nil => simp [matchClauses]
  | cons m first ih =>
      simp only [List.cons_append, matchClauses, ih, bind_assoc, pure_bind, List.append_assoc]

theorem matchClauses_one (m : MatchClause) : matchClauses [m] = matchClause m := by
  simp [matchClauses]

theorem Finding.matched {clauses : List MatchClause} (fits : ∀ m ∈ clauses, m.Fits)
    (some_ : clauses ≠ []) {operations : Ops}
    (compiled : (matchClauses clauses).run .empty = .ok (operations, s))
    (performed : performAll operations Live.onGraph = .ok l) :
    Finding g (fun t => t.Stands s.bindings .node) l := by
  let q : Query := ⟨clauses, [], [], none, none⟩
  obtain ⟨ready, started⟩ := matched_ready (q := q) fits some_ compiled performed
  refine ⟨ready.settled, ready.begun started, ?_⟩
  intro engine store out after _ ran
  have ran : (l.plan.run engine []).run ⟨store, []⟩ = (.ok out, after) := by
    rw [Plan.settled_eq ready.settled]
    exact ran
  obtain ⟨rfl, _⟩ := matched_run (q := q) fits compiled performed ran
  exact ⟨rfl, matched_stands (q := q) fits compiled performed ran⟩

theorem Finding.started {before : List MatchClause} (fits : ∀ m ∈ before, m.Fits)
    {found first : Ops} (compiled : (matchClauses before).run .empty = .ok (found, s))
    {start : NodePattern} (started : (matchStart start).run s = .ok (first, after))
    (performed : performAll (found ++ first) Live.onGraph = .ok l) :
    Finding g (fun t => t.Stands after.bindings .node) l := by
  have alone : (matchClause ⟨[⟨start, []⟩], none⟩).run s = .ok (first, after) := by
    simp [matchClause, matchPaths, matchPath, matchChain, started]
  have whole : (matchClauses (before ++ [⟨[⟨start, []⟩], none⟩])).run .empty =
      .ok (found ++ first, after) := by
    rw [matchClauses_append, matchClauses_one, StateT.run_bind, compiled, ok_bind, StateT.run_bind,
      alone]
    rfl
  have fitsToo : ∀ m ∈ before ++ [⟨[⟨start, []⟩], none⟩], m.Fits :=
    List.forall_mem_append.mpr ⟨fits, List.forall_mem_singleton.mpr
      ⟨by simp, List.forall_mem_singleton.mpr (List.forall_mem_nil _)⟩⟩
  exact .matched fitsToo (by simp) whole performed

theorem Finding.onward {found operations : Ops}
    (finds : ∀ l, performAll found Live.onGraph = .ok l → Finding g Here l)
    (leads : ∀ l, Finding g Here l → ∃ l', performAll operations l = .ok l' ∧ Finding g There l')
    (performed : performAll (found ++ operations) Live.onGraph = .ok l) : Finding g There l := by
  obtain ⟨middle, first, second⟩ := performed_append.mp performed
  obtain ⟨_, same, finding⟩ := leads middle (finds middle first)
  exact Except.ok.inj (same.symm.trans second) ▸ finding

/-- A traverser that has gone back to the vertex under a name. -/
structure BackAt (b : Bindings) (name : String) (t : Traverser) : Prop where
  stands : t.Stands b .node
  last : (t.labelled name).getLast? = some t.object

theorem Finding.select (finding : Finding g (fun t => t.Stands b .node) l) {name : String}
    (declared : Dictionary.get? name b = some .node) :
    ∃ l', performAll [.select [name]] l = .ok l' ∧ Finding g (BackAt b name) l' := by
  refine finding.extend (Builds.labelled .select ⟨rfl, by decide⟩ rfl [name])
    fun engine store _ stream stands => ?_
  have expands : Expands engine ⟨store, []⟩ (fun t u => t = u ∧ u.Stands b .node)
      [.bare .select [.label name]] (fun u : Traverser => [u])
      fun t (_ : Traverser) => BackAt b name t := by
    refine Expands.select fun t u ⟨same, stands⟩ => ?_
    subst same
    obtain ⟨v, found, last, _, ref, vertex⟩ :=
      stands_find stands (rfl : (⟨store, []⟩ : World).sideEffects = []) declared (by decide)
    subst vertex
    exact ⟨_, t, found, rfl, stands.vertex ref, (Traverser.labelled_split ..).symm ▸ last⟩
  exact expands.all (List.forall₂_same.mpr fun t member => ⟨rfl, stands t member⟩)

/-- A traverser at an edge whose end ahead is in the graph. -/
structure AtEdge (g : Graph) (d : Direction) (b : Bindings) (t : Traverser) : Prop where
  stands : t.Stands b .relationship
  ahead : ∃ e w, t.object = .edge e ∧ g.vertex? (d.ahead e t) = some w

theorem ahead_stored (consistent : g.Consistent) (d : Direction) {e : Edge} (stored : e ∈ g.edges)
    (t : Traverser) : ∃ w, g.vertex? (d.ahead e.ref t) = some w := by
  obtain ⟨⟨v, source, out⟩, w, target, in_⟩ := consistent.joins e stored
  have first : g.vertex? e.source = some v := out ▸ consistent.vertex?_eq source
  have second : g.vertex? e.target = some w := in_ ▸ consistent.vertex?_eq target
  cases d with
  | outgoing => exact ⟨w, second⟩
  | incoming => exact ⟨v, first⟩
  | both =>
      by_cases back : Application.previousVertex? t = some e.source
      · exact ⟨w, (congrArg g.vertex? (if_pos back)).trans second⟩
      · exact ⟨v, (congrArg g.vertex? (if_neg back)).trans first⟩

theorem Finding.edges (finding : Finding g (fun t => t.Stands b .node) l)
    (consistent : g.Consistent) (d : Direction) (types : List String) :
    ∃ l', performAll [edgeStep d types] l = .ok l' ∧ Finding g (AtEdge g d b) l' := by
  refine finding.extend (edgeStep_builds d types) fun engine store here stream stands => ?_
  subst here
  -- only the reference counts of the vertex that describes a traverser
  obtain ⟨vertices, at_⟩ : ∃ vertices : List Vertex, List.Forall₂
      (fun (t : Traverser) v => t.Stands b .node ∧ t.object = .vertex v.ref) stream vertices := by
    induction stream with
    | nil => exact ⟨[], .nil⟩
    | cons t rest ih =>
        obtain ⟨vertices, others⟩ := ih fun u later => stands u (List.mem_cons_of_mem _ later)
        obtain ⟨ref, object⟩ := (stands t List.mem_cons_self).here
        exact ⟨⟨ref.id, ref.label, []⟩ :: vertices,
          .cons ⟨stands t List.mem_cons_self, object⟩ others⟩
  have expands : Expands engine ⟨store, []⟩
      (fun (t : Traverser) (v : Vertex) => t.Stands b .node ∧ t.object = .vertex v.ref)
      [.bare (edgeKind d) (types.map .label)] _
      fun (u : Traverser) (_ : Edge) => AtEdge store.graph d b u :=
    Expands.edges (f := fun _ e => e) (fun t v stands => stands.2) fun t v stands e leaving => by
      have stored := ((Direction.mem_edgesAt consistent).mp leaving).1
      obtain ⟨w, found⟩ := ahead_stored consistent d stored (t.split (.edge e.ref))
      exact ⟨stands.1.edge e.ref, e.ref, w, rfl, found⟩
  exact expands.all at_

/-- A label on an edge does not change which end is ahead. -/
theorem AtEdge.declare {d : Direction} {name : String} {t : Traverser}
    (at_ : AtEdge g d s.bindings t) (new : Dictionary.get? name s.bindings = none) :
    AtEdge g d (s.declared .relationship (some name)).bindings (t.addLabel name) where
  stands := at_.stands.declare new at_.stands.here
  ahead := by
    obtain ⟨e, w, object, found⟩ := at_.ahead
    refine ⟨e, w, (Traverser.object_addLabel t name).trans object, ?_⟩
    have same : d.ahead e (t.addLabel name) = d.ahead e t := by
      cases d with
      | both =>
          simp only [Direction.ahead, Application.otherEnd, Traverser.previousVertex?_addLabel]
      | _ => rfl
    exact same ▸ found

theorem labelOps_builds (name : Option String) :
    Builds (labelOps name) (name.toList.map fun name => .bare .as_ [.label name]) :=
  Builds.each (fun name => Builds.labelled .as_ ⟨rfl, by decide⟩ rfl [name]) name.toList

/-- A label, if there is a name for it. -/
def labelAs (name : Option String) (t : Traverser) : Traverser := name.elim t t.addLabel

theorem labelled_labelAs (name : Option String) {other : String} (away : other ∉ name.toList)
    (t : Traverser) : (labelAs name t).labelled other = t.labelled other := by
  cases name with
  | none => rfl
  | some given =>
      exact Traverser.labelled_addLabel_of_ne t fun same => away (List.mem_singleton.mpr same)

theorem stands_labelAs {t : Traverser} {kind given : NameKind}
    (stands : t.Stands s.bindings kind) (name : Option String)
    (fresh : boundKind? s.bindings name = none) (holds : given.Holds t.object) :
    (labelAs name t).Stands (s.declared given name).bindings kind := by
  cases name with
  | none => exact stands
  | some name => exact stands.declare fresh holds

theorem moves_labelAs {Here : Traverser → Prop} (name : Option String) :
    MovesEach g Here (name.toList.map fun name => .bare .as_ [.label name]) (labelAs name) := by
  cases name with
  | none => exact .nil
  | some name => exact .as_ name

def vertexAhead (g : Graph) (d : Direction) (t : Traverser) : Value :=
  match t.object with
  | .edge e => ((g.vertex? (d.ahead e t)).map fun w => .vertex w.ref).getD .null
  | _ => .null

theorem AtEdge.vertexAhead {d : Direction} {t : Traverser} (at_ : AtEdge g d b t) :
    ∃ w : Vertex, Cypher.vertexAhead g d t = .vertex w.ref := by
  obtain ⟨e, w, object, found⟩ := at_.ahead
  exact ⟨w, by simp only [Cypher.vertexAhead, object, found, Option.map_some, Option.getD_some]⟩

theorem moves_ahead (d : Direction) :
    MovesEach g (AtEdge g d b) [.bare (vertexKind d) []] fun t => t.split (vertexAhead g d t) := by
  refine .of_expands fun engine store here => Expands.ahead fun t u ⟨same, at_⟩ => ?_
  obtain ⟨e, w, object, found⟩ := at_.ahead
  subst same here
  refine ⟨e, w, _, object, found, rfl, ?_⟩
  simp only [vertexAhead, object, found, Option.map_some, Option.getD_some]

end Cypher

end PropertyGraph
