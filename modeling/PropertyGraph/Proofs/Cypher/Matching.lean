import PropertyGraph.Proofs.Cypher.Reach

/-!
MATCH clauses of fixed length run as the search for matches: each part of a pattern leads a traverser
that knows the names so far to one traverser for each way to go on.
-/

namespace PropertyGraph

open Exec Script

/-- Every value that is asked for is a literal. -/
def AreLiteral (properties : List (String × Expression)) : Prop :=
  ∀ entry ∈ properties, entry.2.literal?.isSome

/-- One edge in one direction, with literals for its properties. -/
structure RelationshipPattern.IsPlain (r : RelationshipPattern) : Prop where
  fixed : r.length = none
  directed : r.direction ≠ .both
  literal : AreLiteral r.properties

structure PathPattern.IsPlain (p : PathPattern) : Prop where
  start : AreLiteral p.start.properties
  chain : ∀ place ∈ p.chain, place.1.IsPlain ∧ AreLiteral place.2.properties

instance (properties : List (String × Expression)) : Decidable (AreLiteral properties) :=
  inferInstanceAs (Decidable (∀ entry ∈ properties, _))

instance (r : RelationshipPattern) : Decidable r.IsPlain :=
  decidable_of_iff (r.length = none ∧ r.direction ≠ .both ∧ AreLiteral r.properties)
    ⟨fun ⟨fixed, directed, literal⟩ => ⟨fixed, directed, literal⟩,
      fun plain => ⟨plain.fixed, plain.directed, plain.literal⟩⟩

instance (p : PathPattern) : Decidable p.IsPlain :=
  decidable_of_iff (AreLiteral p.start.properties ∧
      ∀ place ∈ p.chain, place.1.IsPlain ∧ AreLiteral place.2.properties)
    ⟨fun ⟨start, chain⟩ => ⟨start, chain⟩, fun plain => ⟨plain.start, plain.chain⟩⟩

namespace Cypher

open Scripting

section

variable {α β : Type} (engine : Engine) {world : World} {b : Bindings} {scope : Scope}
  (named : α → Naming) (place : α → Element) (here : α → Vertex) {S : Traverser → β → Prop}

theorem labels_reach {name : Option String} (kind : NameKind)
    (new : boundKind? scope.bindings name = none)
    (node : kind = .node → ∀ a, ∃ v, place a = .vertex v) :
    Reaches engine world (Stands world.store.graph scope.bindings named place) (labelOps name)
      (fun a => [a])
      (Stands world.store.graph (scope.declared kind name).bindings
        (fun a => named a ++ Naming.of name (place a).value) place) := by
  cases name with
  | none =>
      have same : (fun a => named a ++ Naming.of none (place a).value) = named :=
        funext fun a => List.append_nil _
      rw [same]
      exact Reaches.nil
  | some name =>
      refine ⟨_, (Builds.labelled .as_ ⟨rfl, by decide⟩ rfl [name]).continues, ?_⟩
      refine Expands.as_ fun t a stands => stands.label new fun isNode => ?_
      obtain ⟨v, here⟩ := node isNode a
      have stored := stands.stored
      rw [here] at stored ⊢
      exact ⟨v, stored, rfl⟩

/-- The predicate that a literal stands for. -/
def wanted (e : Expression) : Predicate := .eq (e.literal?.getD .null)

theorem filterOps_literal {properties : List (String × Expression)}
    (literal : AreLiteral properties) (b : Bindings) :
    filterOps b properties = .ok (properties.map fun entry => .has entry.1 (wanted entry.2)) := by
  induction properties with
  | nil => rfl
  | cons entry rest ih =>
      obtain ⟨v, known⟩ := Option.isSome_iff_exists.mp (literal entry List.mem_cons_self)
      have others := ih fun other later => literal other (List.mem_cons_of_mem _ later)
      have first : filterOp b entry.1 entry.2 = .ok (.has entry.1 (wanted entry.2)) := by
        simp [filterOp, wanted, known]
      rw [filterOps] at others ⊢
      rw [List.mapM_cons, first, others]
      rfl

theorem filters_reach (consistent : world.store.graph.Consistent)
    {properties : List (String × Expression)} (literal : AreLiteral properties) {filters : Ops}
    (compiled : filterOps b properties = .ok filters) :
    Reaches engine world (Stands world.store.graph b named place) filters
      (fun a => if properties.all (Expression.holdsAt (place a).properties) then [a] else [])
      (Stands world.store.graph b named place) := by
  rw [filterOps_literal literal] at compiled
  cases compiled
  refine ⟨properties.map fun entry => .bare .has [.label entry.1, .predicate (wanted entry.2)],
    (Builds.each (fun entry => ?_) properties).continues, Expands.filters fun entry member => ?_⟩
  · exact Builds.step .has ⟨rfl, by decide⟩ rfl
      [.label entry.1, .predicate (wanted entry.2)] rfl
  · obtain ⟨v, known⟩ := Option.isSome_iff_exists.mp (literal entry member)
    have known_ (t : Traverser) (a : α) (stands : Stands world.store.graph b named place t a) :
        Gives world (property? t.object entry.1)
          (.ok (Dictionary.get? entry.1 (place a).properties)) := by
      rw [stands.object]
      exact Element.property?_gives consistent stands.stored entry.1
    refine (Expands.has known_ (wanted entry.2)).congr fun t a _ => ?_
    simp only [wanted, known, Option.getD_some, Expression.holdsAt]
    cases Dictionary.get? entry.1 (place a).properties <;> rfl

theorem constraints_reach (consistent : world.store.graph.Consistent) {node : NodePattern}
    (literal : AreLiteral node.properties) {constraints : Ops}
    (compiled : constraintOps b node = .ok constraints) :
    Reaches engine world (Stands world.store.graph b named fun a => .vertex (here a)) constraints
      (fun a => if node.accepts (here a) then [a] else [])
      (Stands world.store.graph b named fun a => .vertex (here a)) := by
  obtain ⟨filters, written, rfl⟩ := map_eq_ok.mp compiled
  refine Reaches.both ?_ (filters_reach engine named _ consistent literal written)
  refine ⟨node.labels.map fun label => .bare .hasLabel [.label label],
    (Builds.each (fun label => ?_) node.labels).continues, Expands.filters fun label _ => ?_⟩
  · exact Builds.labelled .hasLabel ⟨rfl, by decide⟩ rfl [label]
  · exact Expands.hasLabel (fun t a stands => by rw [stands.object]; rfl) label

/-- A node without a bound name: its constraints, and its name for the vertex. -/
theorem arrival_reaches (consistent : world.store.graph.Consistent) {node : NodePattern}
    (literal : AreLiteral node.properties) (new : boundKind? scope.bindings node.name = none)
    {constraints : Ops} (compiled : constraintOps scope.bindings node = .ok constraints) :
    Reaches engine world
      (Stands world.store.graph scope.bindings named fun a => .vertex (here a))
      (constraints ++ labelOps node.name)
      (fun a => if node.accepts (here a) && (named a).allows node.name (.vertex (here a).ref)
        then [a] else [])
      (Stands world.store.graph (scope.declared .node node.name).bindings
        (fun a => named a ++ Naming.of node.name (.vertex (here a).ref))
        fun a => .vertex (here a)) := by
  have fitting := constraints_reach engine named here consistent literal compiled
  have named_ := fitting.guard
    (labels_reach engine named (fun a => .vertex (here a)) .node new fun _ a => ⟨here a, rfl⟩)
  refine named_.congr fun t a stands => ?_
  rw [stands.allows_new _ new, Bool.and_true]

theorem sameAs_reaches (quiet : world.sideEffects = []) {name : String}
    (known : Dictionary.get? name b = some .node) :
    Reaches engine world (Stands world.store.graph b named fun a => .vertex (here a))
      [sameAs name]
      (fun a => if (named a).allows (some name) (.vertex (here a).ref) then [a] else [])
      (Stands world.store.graph b (fun a => named a ++ Naming.of (some name) (.vertex (here a).ref))
        fun a => .vertex (here a)) := by
  have kept : Reaches engine world
      (Stands world.store.graph b named fun a => .vertex (here a)) [sameAs name]
      (fun a => if (named a).allows (some name) (.vertex (here a).ref) then [a] else [])
      (Stands world.store.graph b named fun a => .vertex (here a)) := by
    refine ⟨_, (Builds.step .where_ ⟨rfl, by decide⟩ rfl [.predicate (.eq (.string name))]
      rfl).continues, Expands.sameAs fun t a stands => ?_⟩
    obtain ⟨w, _, before⟩ := stands.node known
    refine ⟨_, stands.named? quiet before, ?_⟩
    rw [stands.object, Bool.eq_iff_iff, stands.allows_node before]
    exact decide_eq_true_iff
  refine kept.knowing fun _ a _ t c member stands => ?_
  by_cases allowed : (named a).allows (some name) (.vertex (here a).ref) = true
  · rw [if_pos allowed] at member
    obtain rfl := List.mem_singleton.mp member
    obtain ⟨w, _, before⟩ := stands.node known
    have same := (stands.allows_node before).mp allowed
    exact (stands.again before).reshape (by rw [same]) rfl
  · rw [if_neg allowed] at member
    cases member

theorem end_reaches (consistent : world.store.graph.Consistent) (quiet : world.sideEffects = [])
    {node : NodePattern} (literal : AreLiteral node.properties) {after : Scope} {operations : Ops}
    (compiled : (matchEnd node).run scope = .ok (operations, after)) :
    Reaches engine world
      (Stands world.store.graph scope.bindings named fun a => .vertex (here a)) operations
      (fun a => if node.accepts (here a) && (named a).allows node.name (.vertex (here a).ref)
        then [a] else [])
      (Stands world.store.graph after.bindings
        (fun a => named a ++ Naming.of node.name (.vertex (here a).ref))
        fun a => .vertex (here a)) := by
  obtain ⟨constraints, written, ⟨new, rfl, rfl⟩ | ⟨name, given, bound, rfl, rfl⟩⟩ :=
    matchEnd_cases compiled
  · exact arrival_reaches engine named here consistent literal new written
  · have same := sameAs_reaches engine named here quiet bound
    rw [given]
    have found := (constraints_reach engine named here consistent literal written).guard same
    refine found.congr fun t a _ => ?_
    cases node.accepts (here a) <;> simp

theorem declared_bindings (scope : Scope) (kind : NameKind) (name : Option String) :
    ({ scope with started := true }.declared kind name).bindings =
      (scope.declared kind name).bindings := by
  cases name <;> rfl

theorem vertices_reach :
    Reaches engine world (Stands world.store.graph b named place) [.vertices]
      (fun a => world.store.graph.vertices.map (a, ·))
      (Stands world.store.graph b (fun state : α × Vertex => named state.1)
        fun state => .vertex state.2) :=
  ⟨_, Continues.vertices, Expands.vertices fun _ a stands v stored =>
    stands.split (c := (a, v)) (fun state : α × Vertex => .vertex state.2) rfl stored⟩

/-- Going back to a name leads to the one vertex that the name may stand for. -/
theorem select_reaches (consistent : world.store.graph.Consistent)
    (quiet : world.sideEffects = []) {name : String}
    (known : Dictionary.get? name b = some .node) :
    Reaches engine world (Stands world.store.graph b named place) [.select [name]]
      (fun a => (world.store.graph.vertices.filter fun v =>
        (named a).allows (some name) (.vertex v.ref)).map (a, ·))
      (Stands world.store.graph b
        (fun state => named state.1 ++ Naming.of (some name) (.vertex state.2.ref))
        fun state => .vertex state.2) := by
  refine ⟨_, (Builds.labelled .select ⟨rfl, by decide⟩ rfl [name]).continues,
    Expands.select fun t a stands => ?_⟩
  obtain ⟨w, stored, before⟩ := stands.node known
  have allows (v : Vertex) (member : v ∈ world.store.graph.vertices) :
      (named a).allows (some name) (.vertex v.ref) = decide (v.id = w.id) := by
    rw [Bool.eq_iff_iff, stands.allows_node before, decide_eq_true_iff]
    constructor
    · intro same
      exact congrArg VertexRef.id (Value.vertex.inj same)
    · intro same
      rw [consistent.distinct member stored same]
  refine ⟨_, (a, w), stands.named? quiet before, ?_,
    (stands.again before).split (c := (a, w)) (fun state : α × Vertex => .vertex state.2) rfl stored⟩
  rw [List.filter_congr allows]
  change (world.store.graph.withId w.id).map (a, ·) = _
  rw [consistent.withId_eq stored]
  rfl

theorem start_reaches (consistent : world.store.graph.Consistent)
    (quiet : world.sideEffects = []) {node : NodePattern} (literal : AreLiteral node.properties)
    {after : Scope} {operations : Ops}
    (compiled : (matchStart node).run scope = .ok (operations, after)) :
    Reaches engine world (Stands world.store.graph scope.bindings named place) operations
      (fun a => (PathPattern.starts world.store.graph (named a) node).map (a, ·))
      (Stands world.store.graph after.bindings
        (fun state => named state.1 ++ Naming.of node.name (.vertex state.2.ref))
        fun state => .vertex state.2) := by
  obtain ⟨constraints, written, ⟨new, rfl, rfl⟩ | ⟨name, given, bound, rfl, rfl⟩⟩ :=
    matchStart_cases compiled
  · have arrived := (vertices_reach engine named place).append
      (arrival_reaches engine _ _ consistent literal new written)
    rw [List.singleton_append, ← List.cons_append] at arrived
    rw [declared_bindings]
    refine arrived.congr fun t a _ => ?_
    rw [PathPattern.starts, List.flatMap_map, flatMap_filter, List.map_eq_flatMap]
  · have arrived := (select_reaches engine named place consistent quiet bound).append
      (constraints_reach engine _ _ consistent literal written)
    rw [List.singleton_append] at arrived
    rw [given]
    refine arrived.congr fun t a _ => ?_
    rw [List.flatMap_map, flatMap_filter, List.filter_filter, PathPattern.starts, given,
      List.map_eq_flatMap]

theorem Direction.ahead_eq {d : Direction} (directed : d ≠ .both) (e : Edge) (t : Traverser)
    (id : VertexId) : d.ahead e.ref t = d.farEnd e id := by
  cases d with
  | outgoing => rfl
  | incoming => rfl
  | both => exact absurd rfl directed

theorem edgeStep_builds (d : Direction) (types : List String) :
    Builds [edgeStep d types] [.bare (edgeKind d) (types.map .label)] := by
  cases d <;> exact Builds.labelled _ ⟨rfl, by decide⟩ rfl types

theorem vertexStep_builds (d : Direction) : Builds [vertexStep d] [.bare (vertexKind d) []] := by
  cases d <;> exact Builds.step _ ⟨rfl, by decide⟩ rfl [] rfl

theorem edges_reach (consistent : world.store.graph.Consistent) (d : Direction)
    (types : List String) :
    Reaches engine world (Stands world.store.graph b named fun a => .vertex (here a))
      [edgeStep d types]
      (fun a => ((d.edgesAt world.store.graph (here a).id).filter (ofTypes types)).map (a, ·))
      (Stands world.store.graph b (fun state : α × Edge => named state.1)
        fun state => .edge state.2) := by
  refine ⟨_, (edgeStep_builds d types).continues, Expands.edges (fun _ _ stands =>
    stands.object) fun t a stands e leaving => ?_⟩
  have stored := ((Direction.mem_edgesAt consistent).mp leaving).1
  exact stands.split (c := (a, e)) (fun state : α × Edge => .edge state.2) rfl stored

theorem ahead_reaches (consistent : world.store.graph.Consistent) {d : Direction}
    (directed : d ≠ .both) {edge : α → Edge} (id : α → VertexId) :
    Reaches engine world (Stands world.store.graph b named fun a => .edge (edge a)) [vertexStep d]
      (fun a => (world.store.graph.withId (d.farEnd (edge a) (id a))).map (a, ·))
      (Stands world.store.graph b (fun state : α × Vertex => named state.1)
        fun state => .vertex state.2) := by
  refine ⟨_, (vertexStep_builds d).continues, Expands.ahead fun t a stands => ?_⟩
  obtain ⟨w, stored, far⟩ := Direction.farEnd_stored consistent d stands.stored (id a)
  refine ⟨(edge a).ref, w, (a, w), stands.object, ?_, ?_,
    stands.split (c := (a, w)) (fun state : α × Vertex => .vertex state.2) rfl stored⟩
  · rw [Direction.ahead_eq directed (edge a) t (id a), ← far]
    exact consistent.vertex?_eq stored
  · rw [← far, consistent.withId_eq stored]
    rfl

/-- A relationship of fixed length leads over each edge that it accepts. -/
theorem relationship_reaches (consistent : world.store.graph.Consistent)
    {r : RelationshipPattern} (plain : r.IsPlain) {after : Scope} {operations : Ops}
    (compiled : (matchRelationship r).run scope = .ok (operations, after)) :
    Reaches engine world
      (Stands world.store.graph scope.bindings named fun a => .vertex (here a)) operations
      (fun a => ((r.direction.edgesAt world.store.graph (here a).id).filter fun e =>
          r.accepts e && (named a).allows r.name (.edge e.ref)).flatMap
        fun e => (world.store.graph.withId (r.direction.farEnd e (here a).id)).map
          fun w => ((a, e), w))
      (Stands world.store.graph after.bindings
        (fun state => named state.1.1 ++ Naming.of r.name (.edge state.1.2.ref))
        fun state => .vertex state.2) := by
  obtain ⟨new, ⟨_, rfl, filters, written, rfl⟩ | ⟨range, several, _⟩⟩ :=
    matchRelationship_cases compiled
  · have fitting := (edges_reach engine named here consistent r.direction r.types).append
      (filters_reach engine _ _ consistent plain.literal written)
    have labelled := fitting.append (labels_reach engine _ _ .relationship new nofun)
    have arrived := labelled.append
      (ahead_reaches engine _ consistent plain.directed fun state => (here state.1).id)
    rw [List.singleton_append] at arrived
    refine arrived.congr fun t a stands => ?_
    have accepted : (fun e => r.accepts e && (named a).allows r.name (.edge e.ref)) =
        fun e => r.properties.all (Expression.holdsAt e.properties) && ofTypes r.types e := by
      funext e
      rw [stands.allows_new _ new, Bool.and_true, RelationshipPattern.accepts, Bool.and_comm]
    rw [accepted, ← List.filter_filter, List.flatMap_map, List.flatMap_singleton',
      List.flatMap_assoc, ← flatMap_filter fun e => r.properties.all _]
    congr 1
    funext e
    cases holds : r.properties.all (Expression.holdsAt e.properties) <;>
      simp [holds, Element.properties]
  · rw [plain.fixed] at several
    cases several

theorem hop_reaches (consistent : world.store.graph.Consistent) (quiet : world.sideEffects = [])
    {r : RelationshipPattern} {n : NodePattern} (plain : r.IsPlain)
    (literal : AreLiteral n.properties) {middle after : Scope} {edge vertex : Ops}
    (compiled : (matchRelationship r).run scope = .ok (edge, middle))
    (compiledEnd : (matchEnd n).run middle = .ok (vertex, after)) :
    Reaches engine world
      (Stands world.store.graph scope.bindings named fun a => .vertex (here a)) (edge ++ vertex)
      (fun a => (Chain.hopsFrom world.store.graph (named a) (here a) r n).map (a, ·))
      (Stands world.store.graph after.bindings
        (fun state => named state.1 ++ Naming.of r.name (.edge state.2.1.ref) ++
          Naming.of n.name (.vertex state.2.2.ref))
        fun state => .vertex state.2.2) := by
  have arrived := (relationship_reaches engine named here consistent plain compiled).append
    (end_reaches engine _ _ consistent quiet literal compiledEnd)
  have reshaped := arrived.map (fun state => (state.1.1, state.1.2, state.2))
    (T := Stands world.store.graph after.bindings
      (fun state => named state.1 ++ Naming.of r.name (.edge state.2.1.ref) ++
        Naming.of n.name (.vertex state.2.2.ref))
      fun state => .vertex state.2.2) fun t state stands => stands.reshape rfl rfl
  refine reshaped.congr fun t a _ => ?_
  rw [Chain.hopsFrom, List.flatMap_assoc, List.map_flatMap, List.map_flatMap]
  congr 1
  funext e
  rw [List.flatMap_map, flatMap_filter, ← List.map_eq_flatMap, List.map_map, List.map_map]
  rfl

theorem chain_reaches (consistent : world.store.graph.Consistent)
    (quiet : world.sideEffects = []) {chain : Chain}
    (plain : ∀ place ∈ chain, place.1.IsPlain ∧ AreLiteral place.2.properties)
    {after : Scope} {operations : Ops}
    (compiled : (matchChain chain).run scope = .ok (operations, after)) :
    Reaches engine world
      (Stands world.store.graph scope.bindings named fun a => .vertex (here a)) operations
      (fun a => (Chain.search world.store.graph (named a) (here a) chain).map (a, ·))
      (Stands world.store.graph after.bindings
        (fun state => named state.1 ++ Chain.naming chain state.2)
        fun state => .vertex (Chain.final (here state.1) state.2)) := by
  induction chain generalizing α scope operations with
  | nil =>
      cases compiled
      refine Reaches.nil.map (fun a => (a, [])) fun t a stands => stands.reshape ?_ rfl
      exact List.append_nil _
  | cons place chain ih =>
      obtain ⟨r, n⟩ := place
      obtain ⟨edge, middle, vertex, next, rest, first, second, others, rfl⟩ :=
        matchChain_cons compiled
      have ends := plain (r, n) List.mem_cons_self
      have hop := hop_reaches engine named here consistent quiet ends.1 ends.2 first second
      have arrived := hop.append
        (ih _ _ (fun place later => plain place (List.mem_cons_of_mem _ later)) others)
      have reshaped := arrived.map (fun state => (state.1.1, state.1.2 :: state.2))
        (T := Stands world.store.graph after.bindings
          (fun state => named state.1 ++ Chain.naming ((r, n) :: chain) state.2)
          fun state => .vertex (Chain.final (here state.1) state.2)) ?_
      · refine reshaped.congr fun t a _ => ?_
        rw [Chain.search, List.flatMap_map, List.map_flatMap, List.map_flatMap]
        congr 1
        funext hop
        rw [List.map_map, List.map_map]
        rfl
      · intro t state stands
        refine stands.reshape ?_ rfl
        simp [Chain.naming]

theorem path_reaches (consistent : world.store.graph.Consistent)
    (quiet : world.sideEffects = []) {p : PathPattern} (plain : p.IsPlain) {after : Scope}
    {operations : Ops} (compiled : (matchPath p).run scope = .ok (operations, after)) :
    Reaches engine world (Stands world.store.graph scope.bindings named place) operations
      (fun a => (p.search world.store.graph (named a)).map (a, ·))
      (Stands world.store.graph after.bindings (fun state => named state.1 ++ p.naming state.2)
        fun state => .vertex (Chain.final state.2.start state.2.hops)) := by
  obtain ⟨first, middle, rest, started, others, rfl⟩ := run_append_ok compiled
  have start := start_reaches engine named place consistent quiet plain.start started
  have arrived := start.append (chain_reaches engine _ _ consistent quiet plain.chain others)
  have reshaped := arrived.map (fun state => (state.1.1, PathMatch.mk state.1.2 state.2))
    (T := Stands world.store.graph after.bindings
      (fun state => named state.1 ++ p.naming state.2)
      fun state => .vertex (Chain.final state.2.start state.2.hops)) ?_
  · refine reshaped.congr fun t a _ => ?_
    rw [PathPattern.search, List.flatMap_map, List.map_flatMap, List.map_flatMap]
    congr 1
    funext v
    rw [List.map_map, List.map_map]
    rfl
  · intro t state stands
    refine stands.reshape ?_ rfl
    simp [PathPattern.naming]

/-- A traverser finds under each name what the name stands for. -/
def Finds (world : World) (named : α → Naming) (t : Traverser) (a : α) : Prop :=
  ∀ name v, (name, v) ∈ named a → world.named? t .last name = some v

theorem paths_reach (consistent : world.store.graph.Consistent)
    (quiet : world.sideEffects = []) {patterns : List PathPattern}
    (plain : ∀ p ∈ patterns, p.IsPlain) {after : Scope} {operations : Ops}
    (compiled : (matchPaths patterns).run scope = .ok (operations, after)) :
    Reaches engine world (Stands world.store.graph scope.bindings named place) operations
      (fun a => (PathPattern.searchAll world.store.graph (named a) patterns).map (a, ·))
      (Finds world fun state => named state.1 ++ PathPattern.namings patterns state.2) := by
  induction patterns generalizing α scope operations with
  | nil =>
      cases compiled
      refine Reaches.nil.map (fun a => (a, [])) fun t a stands name v known => ?_
      exact stands.named? quiet (by simpa [PathPattern.namings] using known)
  | cons p patterns ih =>
      obtain ⟨path, next, rest, first, others, rfl⟩ := run_append_ok compiled
      have one := path_reaches engine named place consistent quiet (plain p List.mem_cons_self) first
      have arrived := one.append
        (ih _ _ (fun q later => plain q (List.mem_cons_of_mem _ later)) others)
      have reshaped := arrived.map (fun state => (state.1.1, state.1.2 :: state.2))
        (T := Finds world fun state =>
          named state.1 ++ PathPattern.namings (p :: patterns) state.2) ?_
      · refine reshaped.congr fun t a _ => ?_
        rw [PathPattern.searchAll, List.flatMap_map, List.map_flatMap, List.map_flatMap]
        congr 1
        funext m
        rw [List.map_map, List.map_map]
        rfl
      · intro t state finds name v known
        refine finds name v ?_
        simpa [PathPattern.namings] using known

theorem root_reaches (world : World) (consistent : world.store.graph.Consistent)
    (quiet : world.sideEffects = []) {p : PathPattern} {patterns : List PathPattern}
    (plain : ∀ q ∈ p :: patterns, q.IsPlain) {after : Scope} {operations : Ops}
    (compiled : (matchPaths (p :: patterns)).run .empty = .ok (operations, after)) :
    ∃ more f, operations = .vertices :: more ∧
      world.store.graph.vertices.flatMap f =
        PathPattern.searchAll world.store.graph [] (p :: patterns) ∧
      Reaches engine world
        (Stands world.store.graph [] (fun _ => []) fun v : Vertex => .vertex v) more f
        (Finds world (PathPattern.namings (p :: patterns))) := by
  obtain ⟨path, next, rest, first, others, rfl⟩ := run_append_ok compiled
  obtain ⟨arrival, middle, chain, started, walked, rfl⟩ := run_append_ok first
  obtain ⟨constraints, written, ⟨new, rfl, rfl⟩ | ⟨_, _, bound, _⟩⟩ := matchStart_cases started
  swap
  · cases bound
  have patternPlain := plain p List.mem_cons_self
  have arrived := arrival_reaches engine (fun _ : Vertex => []) (fun v => v) consistent
    patternPlain.start new written
  rw [← declared_bindings] at arrived
  have walking := arrived.guard (chain_reaches engine _ _ consistent quiet patternPlain.chain walked)
  have onePath := walking.map (fun state => PathMatch.mk state.1 state.2)
    (T := Stands world.store.graph next.bindings p.naming
      fun m => .vertex (Chain.final m.start m.hops)) fun t state stands => stands.reshape rfl rfl
  have allPaths := onePath.append (paths_reach engine _ _ consistent quiet
    (fun q later => plain q (List.mem_cons_of_mem _ later)) others)
  have found := allPaths.map (fun state => state.1 :: state.2)
    (T := Finds world (PathPattern.namings (p :: patterns))) fun t state finds => finds
  refine ⟨_, _, rfl, ?_, found⟩
  rw [PathPattern.searchAll, PathPattern.search, PathPattern.starts, ← flatMap_filter,
    List.flatMap_assoc]
  congr 1
  funext v
  split <;> simp [List.flatMap_map, List.map_flatMap, Function.comp_def]

theorem runs_root {operations : Ops} {f : Vertex → List β}
    (reaches : Reaches engine world
      (Stands world.store.graph [] (fun _ => []) fun v : Vertex => .vertex v) operations f S) :
    ∃ l : Live, performAll (.vertices :: operations) Live.onGraph = .ok l ∧
      ∃ stream, Gives world (l.plan.run engine []) (.ok stream) ∧
        List.Forall₂ S stream (world.store.graph.vertices.flatMap f) := by
  obtain ⟨stages, continues, expands⟩ := reaches
  obtain ⟨program, performed⟩ := continues ⟨true, [.mk .v []], .mk [.vertices] []⟩ rfl nofun
  refine ⟨_, performed, ?_⟩
  have rooted : List.Forall₂ (Stands world.store.graph [] (fun _ => []) fun v : Vertex => .vertex v)
      (world.store.graph.vertices.map fun v => Traverser.start (.vertex v.ref))
      world.store.graph.vertices := by
    rw [List.forall₂_map_left_iff, List.forall₂_same]
    intro v stored
    exact {
      object := rfl
      stored := stored
      recalls := nofun
      coherent := Naming.Coherent.nil
      bound := fun name => by simp [Dictionary.get?]
      nodes := nofun }
  obtain ⟨stream, gives, reached⟩ := expands _ _ rooted
  exact ⟨stream, Plan.run_rooted gives, reached⟩

end

theorem matchPaths_append (first second : List PathPattern) :
    matchPaths (first ++ second) = do
      let paths ← matchPaths first
      return paths ++ (← matchPaths second) := by
  induction first with
  | nil => simp [matchPaths]
  | cons p first ih =>
      simp only [List.cons_append, matchPaths, ih, bind_assoc, pure_bind, List.append_assoc]

/-- Clauses without conditions match all their patterns in turn. -/
theorem matchClauses_eq {clauses : List MatchClause}
    (unconditioned : ∀ m ∈ clauses, m.condition = none) :
    matchClauses clauses = matchPaths (clauses.flatMap (·.patterns)) := by
  induction clauses with
  | nil => rfl
  | cons m clauses ih =>
      have plain := unconditioned m List.mem_cons_self
      have others := ih fun other later => unconditioned other (List.mem_cons_of_mem _ later)
      rw [matchClauses, matchClause, others, List.flatMap_cons, matchPaths_append]
      simp only [plain, bind_assoc, pure_bind]

/-- The traversers that leave the MATCH clauses of a query stand for the ways to match all patterns,
one traverser for each. -/
theorem match_clauses_find_all_matches (store : Store) (engine : Engine)
    (reachable : store.graph.Reachable) {clauses : List MatchClause}
    (unconditioned : ∀ m ∈ clauses, m.condition = none)
    (plain : ∀ m ∈ clauses, ∀ p ∈ m.patterns, p.IsPlain)
    (some_ : clauses.flatMap (·.patterns) ≠ []) {operations : Ops} {scope : Scope}
    (accepted : (matchClauses clauses).run .empty = .ok (operations, scope)) :
    ∃ l : Live, performAll operations Live.onGraph = .ok l ∧
      ∃ stream, Gives ⟨store, []⟩ (l.plan.run engine []) (.ok stream) ∧
        ∃ found : List (List PathMatch), found.Nodup ∧
          (∀ ms, ms ∈ found ↔ PathPattern.AllMatch store.graph (clauses.flatMap (·.patterns)) ms) ∧
          List.Forall₂
            (Finds ⟨store, []⟩ (PathPattern.namings (clauses.flatMap (·.patterns))))
            stream found := by
  have consistent := reachable.consistent
  rw [matchClauses_eq unconditioned] at accepted
  have allPlain : ∀ p ∈ clauses.flatMap (·.patterns), p.IsPlain := by
    intro p member
    obtain ⟨m, clause, pattern⟩ := List.mem_flatMap.mp member
    exact plain m clause p pattern
  generalize clauses.flatMap (·.patterns) = patterns at *
  cases patterns with
  | nil => exact absurd rfl some_
  | cons p patterns =>
      obtain ⟨more, f, rfl, searched, reaches⟩ :=
        root_reaches engine ⟨store, []⟩ consistent rfl allPlain accepted
      obtain ⟨l, performed, stream, gives, reached⟩ := runs_root engine reaches
      rw [searched] at reached
      have directed : ∀ q ∈ p :: patterns, ∀ place ∈ q.chain, place.1.direction ≠ .both :=
        fun q member place inside => ((allPlain q member).chain place inside).1.directed
      refine ⟨l, performed, stream, gives, _, ?_, fun ms => ?_, reached⟩
      · exact PathPattern.searchAll_nodup consistent directed []
      · exact PathPattern.mem_searchAll consistent Naming.Coherent.nil

/-- An edge, and once more an edge from where the first one starts. -/
def edgeTwice : List MatchClause :=
  [⟨[⟨⟨some "a", ["p"], []⟩,
      [(⟨some "r", ["k"], [], .outgoing, none⟩, ⟨some "b", [], []⟩)]⟩], none⟩,
    ⟨[⟨⟨some "b", [], []⟩, [(⟨none, [], [], .incoming, none⟩, ⟨some "a", [], []⟩)]⟩], none⟩]

theorem edge_twice_is_found : ∃ operations scope,
    (matchClauses edgeTwice).run .empty = .ok (operations, scope) ∧
    ∃ l : Live, performAll operations Live.onGraph = .ok l ∧
      ∃ stream, Gives ⟨⟨.oneEdge, .zero⟩, []⟩ (l.plan.run (.standard 10) []) (.ok stream) ∧
        ∃ found : List (List PathMatch), found.Nodup ∧
          (∀ ms, ms ∈ found ↔
            PathPattern.AllMatch .oneEdge (edgeTwice.flatMap (·.patterns)) ms) ∧
          List.Forall₂ (Finds ⟨⟨.oneEdge, .zero⟩, []⟩
            (PathPattern.namings (edgeTwice.flatMap (·.patterns)))) stream found := by
  refine ⟨_, _, rfl, ?_⟩
  exact match_clauses_find_all_matches ⟨.oneEdge, .zero⟩ (.standard 10) Graph.oneEdge_reachable
    (by simp [edgeTwice]) (by decide) (by simp [edgeTwice]) rfl

end Cypher

end PropertyGraph
