import PropertyGraph.Proofs.Cypher.PatternSoundness

/-!
What the names of MATCH clauses stand for: a node is bound to a vertex, a relationship to an edge,
and a relationship of variable length to edges only. Between the parts of a pattern every traverser
stands at a vertex.
-/

namespace PropertyGraph

/-- What a label of this kind may be given to; a path of variable length labels its edges one by
one. -/
def NameKind.Holds : NameKind → Value → Prop
  | .node, v => ∃ ref, v = .vertex ref
  | .relationship, v => ∃ ref, v = .edge ref
  | .relationships, v => ∃ ref, v = .edge ref

namespace Traverser

variable {t : Traverser} {b : Cypher.Bindings}

/-- Whatever is labelled on the path is of the kind that its label is declared with. -/
def Sorted (b : Cypher.Bindings) (t : Traverser) : Prop :=
  ∀ visit ∈ t.here :: t.past, ∀ label ∈ visit.labels,
    ∃ kind, Dictionary.get? label b = some kind ∧ kind.Holds visit.object

namespace Sorted

theorem start (v : Value) : (Traverser.start v).Sorted b := by
  intro visit visited label given
  cases List.mem_singleton.mp visited
  cases given

theorem split (sorted : t.Sorted b) (v : Value) : (t.split v).Sorted b :=
  List.forall_mem_cons.mpr ⟨nofun, sorted⟩

theorem addLabel (sorted : t.Sorted b) {label : String} {kind : NameKind}
    (declared : Dictionary.get? label b = some kind) (holds : kind.Holds t.object) :
    (t.addLabel label).Sorted b := by
  unfold Traverser.addLabel
  split
  · exact sorted
  · obtain ⟨here, past⟩ := List.forall_mem_cons.mp sorted
    refine List.forall_mem_cons.mpr ⟨fun other given => ?_, past⟩
    rcases List.mem_append.mp given with old | new
    · exact here other old
    · cases List.mem_singleton.mp new
      exact ⟨kind, declared, holds⟩

theorem declare (sorted : t.Sorted b) {name : String} (fresh : Dictionary.get? name b = none)
    (kind : NameKind) : t.Sorted (Dictionary.put name kind b) := by
  intro visit visited label given
  obtain ⟨known, declared, holds⟩ := sorted visit visited label given
  have other : label ≠ name := by
    rintro rfl
    rw [fresh] at declared
    cases declared
  exact ⟨known, by rw [Dictionary.get?_put, if_neg other]; exact declared, holds⟩

theorem labelled (sorted : t.Sorted b) {name : String} {kind : NameKind}
    (declared : Dictionary.get? name b = some kind) {v : Value} (member : v ∈ t.labelled name) :
    kind.Holds v := by
  obtain ⟨visit, found, rfl⟩ := List.mem_map.mp (List.mem_reverse.mp member)
  obtain ⟨visited, given⟩ := List.mem_filter.mp found
  obtain ⟨known, same, holds⟩ := sorted visit visited name (by simpa using given)
  cases declared.symm.trans same
  exact holds

end Sorted

/-- The path knows a scope and is sorted by it, and the object is one that a name of this kind may
stand for. -/
structure Stands (b : Cypher.Bindings) (kind : NameKind) (t : Traverser) : Prop where
  knows : t.Knows b []
  sorted : t.Sorted b
  here : kind.Holds t.object

namespace Stands

variable {kind : NameKind}

theorem split (stands : t.Stands b kind) {v : Value} {other : NameKind} (plain : v.map? = none)
    (holds : other.Holds v) : (t.split v).Stands b other :=
  ⟨stands.knows.split plain, stands.sorted.split v, holds⟩

theorem vertex (stands : t.Stands b kind) (v : VertexRef) :
    (t.split (.vertex v)).Stands b .node :=
  stands.split rfl ⟨v, rfl⟩

theorem edge (stands : t.Stands b kind) (e : EdgeRef) :
    (t.split (.edge e)).Stands b .relationship :=
  stands.split rfl ⟨e, rfl⟩

theorem addLabel (stands : t.Stands b kind) {label : String} {given : NameKind}
    (declared : Dictionary.get? label b = some given) (holds : given.Holds t.object) :
    (t.addLabel label).Stands b kind where
  knows := stands.knows.addLabel label
  sorted := stands.sorted.addLabel declared holds
  here := by
    rw [object_addLabel]
    exact stands.here

theorem declare (stands : t.Stands b kind) {label : String} {given : NameKind}
    (fresh : Dictionary.get? label b = none) (holds : given.Holds t.object) :
    (t.addLabel label).Stands (Dictionary.put label given b) kind where
  knows := (stands.knows.addLabel label).declare given fun _ => t.labels_addLabel label
  sorted := (stands.sorted.declare fresh given).addLabel (by rw [Dictionary.get?_put, if_pos rfl])
    holds
  here := by
    rw [object_addLabel]
    exact stands.here

theorem split_named (stands : t.Stands b kind) {name : String} {given : NameKind} {v : Value}
    (declared : Dictionary.get? name b = some given) (found : t.named? .last name = some v) :
    (t.split v).Stands b given := by
  refine ⟨stands.knows.split_named found, stands.sorted.split v, ?_⟩
  have here : t.object.map? = none := stands.knows.plain _ List.mem_cons_self
  simp only [named?, World.named?, here, Option.bind_none, Dictionary.get?, pathValue?] at found
  exact stands.sorted.labelled declared (List.mem_of_getLast? found)

theorem steady (b : Cypher.Bindings) (kind : NameKind) :
    Application.Loop.Steady fun t => t.Stands b kind where
  enter _ stands := ⟨(Knows.steady b []).enter _ stands.knows, stands.sorted, stands.here⟩
  count t stands := by
    have knows := (Knows.steady b []).count t stands.knows
    unfold countLoop at knows ⊢
    split
    · exact stands
    · next loops =>
      rw [loops] at knows
      exact ⟨knows, stands.sorted, stands.here⟩
  exit _ stands := ⟨(Knows.steady b []).exit _ stands.knows, stands.sorted, stands.here⟩

end Stands

end Traverser

namespace Cypher

open Exec Plan Script Scripting Traverser

/-- Streams of traversers that stand at what a name of this kind stands for. -/
abbrev Standing (b : Bindings) (kind : NameKind) : Stream → Prop := All fun t => t.Stands b kind

variable {scope after : Scope} {b : Bindings} {kind : NameKind} {operations : Ops} {l l' : Live}

theorem binds_of_stands (t : Traverser) (stands : t.Stands b kind) : t.Binds b :=
  stands.knows.binds

theorem edgeStep_stands (d : Direction) (types : List String) :
    Passes (Standing b .node) [edgeStep d types] (Standing b .relationship) := by
  have edges (a : Application) (incident : Graph → VertexId → List Edge) (stream : Stream)
      (all : Standing b .node stream) : Exec.Sound (Standing b .relationship)
        (a.edges incident stream) (a.edges incident stream) :=
    Application.edges_sound a incident fun t member e => (all t member).edge e
  cases d <;> exact .labelled ⟨rfl, by decide⟩ (by decide) rfl types fun _ stream all =>
    edges _ _ stream all

theorem vertexStep_stands (d : Direction) :
    Passes (Standing b .relationship) [vertexStep d] (Standing b .node) := by
  have ends (a : Application) (choose : EdgeRef → Traverser → VertexId) (stream : Stream)
      (all : Standing b .relationship stream) : Exec.Sound (Standing b .node)
        (a.endpoint choose stream) (a.endpoint choose stream) :=
    (Application.endpoint_sound (S := fun t => t.Stands b .node) a choose
      fun t member v => (all t member).vertex v).imp fun _ count => count.all
  cases d <;> exact .bare ⟨rfl, by decide⟩ (by decide) rfl fun _ stream all => ends _ _ stream all

theorem addLabel_stands {b' : Bindings} (name : String)
    (labelled : ∀ t : Traverser, t.Stands b kind → (t.addLabel name).Stands b' kind) :
    Passes (Standing b kind) [.labelled .as_ [name]] (Standing b' kind) :=
  .labelled ⟨rfl, by decide⟩ (by decide) rfl [name] fun _ _ all =>
    (Application.as_sound (a := ⟨.as_, [.label name], [], []⟩)
      (S := fun t => t.Stands b' kind) fun t member => labelled t (all t member)).imp
      fun _ count => count.all

theorem labelOps_stand {name : Option String} (fresh : boundKind? scope.bindings name = none)
    {given : NameKind} (holds : ∀ v, kind.Holds v → given.Holds v) :
    Passes (Standing scope.bindings kind) (labelOps name)
      (Standing (scope.declared given name).bindings kind) := by
  cases name with
  | none => exact .nil fun _ all => all
  | some name =>
      exact addLabel_stands name fun t stands => stands.declare fresh (holds _ stands.here)

/-- Within a loop, the edges are labelled with a name that is declared before. -/
theorem labelOps_several {name : Option String}
    (declared : ∀ label ∈ name, Dictionary.get? label b = some .relationships) :
    Passes (Standing b .relationship) (labelOps name) (Standing b .relationship) := by
  cases name with
  | none => exact .nil fun _ all => all
  | some name =>
      exact addLabel_stands name fun t stands => stands.addLabel (declared name rfl) stands.here

theorem select_stands {name : String} (declared : Dictionary.get? name b = some .node) :
    Passes (Standing b .node) [.select [name]] (Standing b .node) :=
  .select (fun _ stands => stands.knows.binds.finds declared (by decide))
    (fun _ _ stands found => stands.split_named declared found)
    fun _ _ all => ⟨all, fun count => count.all⟩

theorem hopOps_stand {r : RelationshipPattern} {filters : Ops}
    (found : filterOps b r.properties = .ok filters) (performs : Performs (hopOps r filters))
    (declared : ∀ label ∈ r.name, Dictionary.get? label b = some .relationships) :
    Passes (Count 1 fun t => t.Stands b .node) (hopOps r filters) (Standing b .node) := by
  obtain ⟨built, performed⟩ := performs.left.left
  obtain ⟨_, _, filtered⟩ := performed_cons.mp performed
  have steps : Passes (Standing b .relationship) [vertexStep r.direction, .append .simplePath []]
      (Standing b .node) := (vertexStep_stands r.direction).append .simplePath
  have passes := (((edgeStep_stands r.direction r.types).append
    (filterOps_passes binds_of_stands found filtered)).append (labelOps_several declared)).append
      steps
  exact passes.before fun _ count => count.all

namespace Ready

theorem matchStart_stands {node : NodePattern}
    (compiled : (Cypher.matchStart node).run scope = .ok (operations, after))
    (ready : Ready scope [] l) (supplies : Supplies (fun t => t.Stands scope.bindings .node) l)
    (performed : performAll operations l = .ok l') :
    Supplies (fun t => t.Stands after.bindings .node) l' := by
  obtain ⟨constraints, found, ⟨fresh, rfl, rfl⟩ | ⟨name, _, bound, rfl, rfl⟩⟩ :=
    matchStart_cases compiled
  · rw [List.cons_append] at performed
    obtain ⟨rooted, vertices, performed⟩ := performed_cons.mp performed
    obtain ⟨middle, filtered, labels⟩ := performed_append.mp performed
    have all := (ready.vertices_supply supplies
      (fun blank v => ⟨ready.knows_start blank v, .start _, v, rfl⟩)
      (fun t stands v => stands.vertex v) vertices).1
    have kept := all.pass (constraintOps_passes binds_of_stands found filtered) filtered
    have unbound : boundKind? ({ scope with started := true } : Scope).bindings node.name = none :=
      fresh
    exact kept.pass (labelOps_stand unbound fun _ holds => holds) labels
  · obtain ⟨middle, selected, filtered⟩ := performed_cons.mp performed
    exact (supplies.pass (select_stands bound) selected).pass
      (constraintOps_passes binds_of_stands found filtered) filtered

theorem matchEnd_stands {node : NodePattern}
    (compiled : (Cypher.matchEnd node).run scope = .ok (operations, after))
    (supplies : Supplies (fun t => t.Stands scope.bindings .node) l)
    (performed : performAll operations l = .ok l') :
    Supplies (fun t => t.Stands after.bindings .node) l' := by
  obtain ⟨constraints, found, ⟨fresh, rfl, rfl⟩ | ⟨name, _, _, rfl, rfl⟩⟩ := matchEnd_cases compiled
  all_goals
    obtain ⟨middle, filtered, others⟩ := performed_append.mp performed
    have kept := supplies.pass (constraintOps_passes binds_of_stands found filtered) filtered
  · exact kept.pass (labelOps_stand fresh fun _ holds => holds) others
  · exact kept.pass (.sameAs _) others

theorem matchRelationship_stands {r : RelationshipPattern} (fits : r.Fits)
    (compiled : (Cypher.matchRelationship r).run scope = .ok (operations, after))
    (supplies : Supplies (fun t => t.Stands scope.bindings .node) l)
    (performed : performAll operations l = .ok l') :
    Supplies (fun t => t.Stands after.bindings .node) l' := by
  obtain ⟨fresh, ⟨_, rfl, filters, found, rfl⟩ | ⟨range, length, rfl, walk⟩⟩ :=
    matchRelationship_cases compiled
  · rw [List.append_assoc, List.cons_append] at performed
    obtain ⟨there, walked, performed⟩ := performed_cons.mp performed
    obtain ⟨kept, filtered, performed⟩ := performed_append.mp performed
    obtain ⟨known, labels, arrived⟩ := performed_append.mp performed
    have edges := supplies.pass (edgeStep_stands r.direction r.types) walked
    have some_ := edges.pass (filterOps_passes binds_of_stands found filtered) filtered
    have bound := some_.pass (labelOps_stand fresh fun _ holds => holds) labels
    exact bound.pass (vertexStep_stands r.direction) arrived
  · have several : Supplies
        (fun t => t.Stands (scope.declared .relationships r.name).bindings .node) l := by
      refine supplies.imp fun t stands => ?_
      cases named : r.name with
      | none => exact stands
      | some name =>
          rw [named] at fresh
          exact ⟨stands.knows.declare .relationships fun other => absurd rfl other,
            stands.sorted.declare fresh .relationships, stands.here⟩
    obtain ⟨_, rfl⟩ | ⟨_, filters, found, rfl⟩ := walk
    · cases performed
      exact several
    · have performs : Performs (hopOps r filters) :=
        Performs.within performed (loop_mem _ _) List.mem_cons_self
      have declared : ∀ label ∈ r.name,
          Dictionary.get? label (scope.declared .relationships r.name).bindings =
            some .relationships := by
        intro label named
        rw [Option.mem_def.mp named, Scope.declared]
        exact (Dictionary.get?_put ..).trans (if_pos rfl)
      exact (several.pathLoop (Stands.steady _ _) (fits range length)
        (hopOps_stand found performs declared) performed).1

theorem matchChain_stands {chain : List (RelationshipPattern × NodePattern)}
    (fits : ∀ link ∈ chain, link.1.Fits)
    (compiled : (Cypher.matchChain chain).run scope = .ok (operations, after))
    (supplies : Supplies (fun t => t.Stands scope.bindings .node) l)
    (performed : performAll operations l = .ok l') :
    Supplies (fun t => t.Stands after.bindings .node) l' := by
  induction chain generalizing scope operations l with
  | nil =>
      cases compiled
      cases performed
      exact supplies
  | cons link rest ih =>
      obtain ⟨edge, walked, vertex, reached, others, first, second, third, rfl⟩ :=
        matchChain_cons compiled
      obtain ⟨hopped, performed, later⟩ := performed_append.mp performed
      obtain ⟨halfway, one, two⟩ := performed_append.mp performed
      have walks := matchRelationship_stands (fits _ List.mem_cons_self) first supplies one
      have ends := matchEnd_stands second walks two
      exact ih (fun link member => fits link (List.mem_cons_of_mem _ member)) third ends later

theorem matchPath_stands {p : PathPattern} (fits : p.Fits)
    (compiled : (Cypher.matchPath p).run scope = .ok (operations, after))
    (ready : Ready scope [] l) (supplies : Supplies (fun t => t.Stands scope.bindings .node) l)
    (performed : performAll operations l = .ok l') :
    Supplies (fun t => t.Stands after.bindings .node) l' := by
  obtain ⟨first, found, others, middle, start, one, chain, later⟩ := made_append compiled performed
  exact matchChain_stands fits chain (ready.matchStart_stands start supplies one) later

theorem matchPaths_stands {paths : List PathPattern} (fits : ∀ p ∈ paths, p.Fits)
    (compiled : (Cypher.matchPaths paths).run scope = .ok (operations, after))
    (ready : Ready scope [] l) (supplies : Supplies (fun t => t.Stands scope.bindings .node) l)
    (performed : performAll operations l = .ok l') :
    Supplies (fun t => t.Stands after.bindings .node) l' := by
  induction paths generalizing scope operations l with
  | nil =>
      cases compiled
      cases performed
      exact supplies
  | cons p rest ih =>
      obtain ⟨path, found, others, middle, first, one, second, later⟩ :=
        made_append compiled performed
      have fit := fits p List.mem_cons_self
      exact ih (fun p member => fits p (List.mem_cons_of_mem _ member)) second
        (ready.matchPath fit first one).1 (ready.matchPath_stands fit first supplies one) later

theorem matchClause_stands {m : MatchClause} (fits : m.Fits)
    (compiled : (Cypher.matchClause m).run scope = .ok (operations, after))
    (ready : Ready scope [] l) (supplies : Supplies (fun t => t.Stands scope.bindings .node) l)
    (performed : performAll operations l = .ok l') :
    Supplies (fun t => t.Stands after.bindings .node) l' := by
  obtain ⟨paths, first, ⟨_, rfl⟩ | ⟨e, inside, _, asked, rfl⟩⟩ := matchClause_cases compiled
  · exact ready.matchPaths_stands fits.paths first supplies performed
  · obtain ⟨found, walked, filtered⟩ := performed_append.mp performed
    have performs : Performs inside :=
      Performs.within filtered List.mem_cons_self List.mem_cons_self
    have asks := conditionOps_passes asked performs
    exact (ready.matchPaths_stands fits.paths first supplies walked).pass
      (.where_ (asks.before fun _ count => count.imp binds_of_stands)) filtered

/-- After MATCH clauses, every traverser stands at a vertex, and what its path labels is of the kind
that the clauses declare. -/
theorem matchClauses_stand {clauses : List MatchClause} (fits : ∀ m ∈ clauses, m.Fits)
    (compiled : (Cypher.matchClauses clauses).run scope = .ok (operations, after))
    (ready : Ready scope [] l) (supplies : Supplies (fun t => t.Stands scope.bindings .node) l)
    (performed : performAll operations l = .ok l') :
    Supplies (fun t => t.Stands after.bindings .node) l' := by
  induction clauses generalizing scope operations l with
  | nil =>
      cases compiled
      cases performed
      exact supplies
  | cons m rest ih =>
      obtain ⟨clause, found, others, middle, first, one, second, later⟩ :=
        made_append compiled performed
      have fit := fits m List.mem_cons_self
      exact ih (fun m member => fits m (List.mem_cons_of_mem _ member)) second
        (ready.matchClause fit first one).1 (ready.matchClause_stands fit first supplies one) later

end Ready

end Cypher

end PropertyGraph
