import PropertyGraph.Proofs.Cypher.PatternScript
import PropertyGraph.Proofs.Cypher.Readiness

/-!
Scripts of MATCH clauses: traversers that know the variables of the scope before a clause know those
of the scope after it.
-/

namespace PropertyGraph

namespace Cypher

open Exec Plan Script Scripting

variable {b : Bindings} {extra : List String} {operations : Ops} {l l' : Live}

namespace Passes

variable {R : Traverser → Prop}

theorem has (key : String) (p : Predicate) : Passes (All R) [.has key p] (All R) :=
  step ⟨rfl, by decide⟩ (by decide) rfl ⟨[.label key, .predicate p], rfl, rfl, rfl⟩
    fun _ _ all => Application.has_sound rfl all

theorem hasLabel (label : String) : Passes (All R) [.hasLabel [label]] (All R) :=
  labelled ⟨rfl, by decide⟩ (by decide) rfl [label] fun _ _ all =>
    Application.hasLabel_sound _ all

theorem simplePath : Passes (All R) [.append .simplePath []] (All R) :=
  bare ⟨rfl, by decide⟩ (by decide) rfl fun _ _ all => Application.simplePath_sound all

theorem sameAs (name : String) : Passes (All R) [Cypher.sameAs name] (All R) :=
  flat ⟨rfl, by decide⟩ (by decide) rfl (.predicate (.eq (.string name))) rfl fun _ _ all =>
    Application.wherePredicate_sound (a := ⟨.where_, [.predicate (.eq (.string name))], [], []⟩)
      rfl all

theorem filters (pass : ∀ op ∈ operations, Passes (All R) [op] (All R)) :
    Passes (All R) operations (All R) := by
  induction operations with
  | nil => exact .nil fun _ all => all
  | cons op rest ih =>
      exact (pass op List.mem_cons_self).append
        (ih fun other later => pass other (List.mem_cons_of_mem _ later))

end Passes

theorem knows_binds {n : Nat} (stream : Stream)
    (count : Count n (fun t => t.Knows b extra) stream) :
    Count n (fun t => t.Binds b) stream :=
  count.imp fun _ knows => knows.binds

section Filters

variable {R : Traverser → Prop} (binds : ∀ t, R t → t.Binds b)

include binds

theorem filterOp_passes {key : String} {e : Expression} {op : Op Script}
    (compiled : filterOp b key e = .ok op) (performed : performAll [op] l = .ok l') :
    Passes (All R) [op] (All R) := by
  unfold filterOp at compiled
  split at compiled
  · cases compiled
    exact .has _ _
  · obtain ⟨script, value, same⟩ := bind_eq_ok.mp compiled
    cases same
    obtain ⟨other, compiledOther, rfl⟩ := map_eq_ok.mp value
    have performs : Performs (pairwise .equals [ownProperty key] other ++ [isTrue]) :=
      Performs.within performed List.mem_cons_self List.mem_cons_self
    have both : Values b (pairwise .equals [ownProperty key] other) :=
      .pairwise rfl (.ownProperty key)
        (valueOps_passes e compiledOther (performs.left.inside List.mem_cons_self (by simp)))
    exact .where_ ((both.tests [.eq (.bool true)]).before fun _ count => count.imp binds)

theorem filterOps_passes {properties : List (String × Expression)}
    (compiled : filterOps b properties = .ok operations)
    (performed : performAll operations l = .ok l') :
    Passes (All R) operations (All R) := by
  induction properties generalizing operations l with
  | nil =>
      cases compiled
      exact .nil fun _ all => all
  | cons entry rest ih =>
      rw [filterOps, List.mapM_cons] at compiled
      obtain ⟨op, first, compiled⟩ := bind_eq_ok.mp compiled
      obtain ⟨others, several, same⟩ := bind_eq_ok.mp compiled
      cases same
      obtain ⟨middle, one, performed⟩ := performed_cons.mp performed
      exact (filterOp_passes binds first one).append (ih several performed)

theorem constraintOps_passes {node : NodePattern} (compiled : constraintOps b node = .ok operations)
    (performed : performAll operations l = .ok l') :
    Passes (All R) operations (All R) := by
  obtain ⟨filters, found, rfl⟩ := map_eq_ok.mp compiled
  obtain ⟨middle, _, performed⟩ := performed_append.mp performed
  refine .append (.filters fun op member => ?_) (filterOps_passes binds found performed)
  obtain ⟨label, _, rfl⟩ := List.mem_map.mp member
  exact .hasLabel label

end Filters

theorem binds_of_knows (t : Traverser) (knows : t.Knows b extra) : t.Binds b := knows.binds

theorem addLabel_passes {b' : Bindings} {more : List String} (name : String)
    (labelled : ∀ t : Traverser, t.Knows b extra → (t.addLabel name).Knows b' more) :
    Passes (Known b extra) [.labelled .as_ [name]] (Known b' more) :=
  .labelled ⟨rfl, by decide⟩ (by decide) rfl [name] fun _ _ all =>
    (Application.as_sound (a := ⟨.as_, [.label name], [], []⟩)
      (S := fun t => t.Knows b' more) fun t member => labelled t (all t member)).imp
      fun _ count => count.all

theorem labelOps_keep (name : Option String) :
    Passes (Known b extra) (labelOps name) (Known b extra) := by
  cases name with
  | none => exact .nil fun _ all => all
  | some name => exact addLabel_passes name fun _ knows => knows.addLabel name

theorem labelOps_declare (name : Option String) (kind : NameKind) (scope : Scope) :
    Passes (Known scope.bindings extra) (labelOps name)
      (Known (scope.declared kind name).bindings extra) := by
  cases name with
  | none => exact .nil fun _ all => all
  | some name =>
      exact addLabel_passes name fun t knows =>
        (knows.addLabel name).declare kind fun _ => t.labels_addLabel name

theorem edgeStep_passes (d : Direction) (types : List String) :
    Passes (Known b extra) [edgeStep d types] (Known b extra) := by
  have edges (a : Application) (incident : Graph → VertexId → List Edge) (stream : Stream)
      (all : Known b extra stream) :
      Exec.Sound (Known b extra) (a.edges incident stream) (a.edges incident stream) :=
    Application.edges_sound a incident fun t member _ => (all t member).split rfl
  cases d <;> exact .labelled ⟨rfl, by decide⟩ (by decide) rfl types fun _ stream all =>
    edges _ _ stream all

theorem vertexStep_passes (d : Direction) :
    Passes (Known b extra) [vertexStep d] (Known b extra) := by
  have ends (a : Application) (choose : EdgeRef → Traverser → VertexId) (stream : Stream)
      (all : Known b extra stream) :
      Exec.Sound (Known b extra) (a.endpoint choose stream) (a.endpoint choose stream) :=
    (Application.endpoint_sound (S := fun t => t.Knows b extra) a choose
      (Ready.knows_vertices all)).imp fun _ count => count.all
  cases d <;> exact .bare ⟨rfl, by decide⟩ (by decide) rfl fun _ stream all => ends _ _ stream all

theorem select_passes {name : String} {kind : NameKind}
    (declared : Dictionary.get? name b = some kind) (single : kind ≠ .relationships) :
    Passes (Known b extra) [.select [name]] (Known b extra) :=
  .select (fun _ knows => knows.binds.finds declared single)
    (fun _ _ knows found => knows.split_named found) fun _ _ all => ⟨all, fun count => count.all⟩

end Cypher

/-- The length of a path fits the counter of a loop. -/
def RelationshipPattern.Fits (r : RelationshipPattern) : Prop :=
  ∀ range ∈ r.length, ∀ n ∈ range.max, n < twoTo 32

def PathPattern.Fits (p : PathPattern) : Prop := ∀ link ∈ p.chain, link.1.Fits

structure MatchClause.Fits (m : MatchClause) : Prop where
  some_ : m.patterns ≠ []
  paths : ∀ p ∈ m.patterns, p.Fits

namespace Cypher

open Exec Plan Script Scripting

namespace Ready

variable {scope after : Scope} {extra : List String} {operations : Ops} {l l' : Live}

/-- Only a traversal that has started binds names. -/
theorem started_of_bound (ready : Ready scope extra l) {name : String} {kind : NameKind}
    (bound : Dictionary.get? name scope.bindings = some kind) : scope.started = true := by
  cases started : scope.started with
  | true => rfl
  | false =>
      rw [(ready.blank started).2.1] at bound
      cases bound

theorem matchStart {node : NodePattern}
    (compiled : (Cypher.matchStart node).run scope = .ok (operations, after))
    (ready : Ready scope [] l) (performed : performAll operations l = .ok l') :
    Ready after [] l' ∧ after.started = true := by
  obtain ⟨constraints, found, ⟨_, rfl, rfl⟩ | ⟨name, _, bound, rfl, rfl⟩⟩ :=
    matchStart_cases compiled
  · rw [List.cons_append] at performed
    obtain ⟨rooted, vertices, performed⟩ := performed_cons.mp performed
    obtain ⟨middle, filtered, labels⟩ := performed_append.mp performed
    have all := ready.vertices vertices
    have kept := all.pass rfl rfl (constraintOps_passes binds_of_knows found filtered) filtered
    have still := Scope.declared_started { scope with started := true } .node node.name
    exact ⟨kept.pass rfl still (labelOps_declare _ _ _) labels, still⟩
  · have started := ready.started_of_bound bound
    obtain ⟨middle, selected, filtered⟩ := performed_cons.mp performed
    have there := ready.pass started started (select_passes bound (by decide)) selected
    have passes : Passes (Known _ []) constraints (Known _ []) :=
      constraintOps_passes binds_of_knows found filtered
    exact ⟨there.pass started started passes filtered, started⟩

theorem matchEnd {node : NodePattern}
    (compiled : (Cypher.matchEnd node).run scope = .ok (operations, after))
    (ready : Ready scope [] l) (started : scope.started = true)
    (performed : performAll operations l = .ok l') :
    Ready after [] l' ∧ after.started = true := by
  obtain ⟨constraints, found, ⟨_, rfl, rfl⟩ | ⟨name, _, _, rfl, rfl⟩⟩ := matchEnd_cases compiled
  all_goals
    obtain ⟨middle, filtered, others⟩ := performed_append.mp performed
    have passes : Passes (Known _ []) constraints (Known _ []) :=
      constraintOps_passes binds_of_knows found filtered
    have kept := ready.pass started started passes filtered
  · have still := (scope.declared_started .node node.name).trans started
    exact ⟨kept.pass started still (labelOps_declare _ _ _) others, still⟩
  · exact ⟨kept.pass started started (.sameAs _) others, started⟩

theorem hopOps_passes {b : Bindings} {r : RelationshipPattern} {filters : Ops}
    (found : filterOps b r.properties = .ok filters) (performs : Performs (hopOps r filters)) :
    Passes (Count 1 fun t => t.Knows b extra) (hopOps r filters) (Known b extra) := by
  obtain ⟨built, performed⟩ := performs.left.left
  obtain ⟨_, _, filtered⟩ := performed_cons.mp performed
  have steps : Passes (Known b extra) [vertexStep r.direction, .append .simplePath []]
      (Known b extra) := (vertexStep_passes r.direction).append .simplePath
  have passes := (((edgeStep_passes r.direction r.types).append
    (filterOps_passes binds_of_knows found filtered)).append (labelOps_keep r.name)).append steps
  exact passes.before fun _ count => count.all

theorem loop_mem (inside : Ops) (range : PathLength) :
    .nested .repeat_ [.of inside] ∈ Cypher.pathLoop inside range := by
  unfold Cypher.pathLoop
  split <;> simp

theorem matchRelationship {r : RelationshipPattern} (fits : r.Fits)
    (compiled : (Cypher.matchRelationship r).run scope = .ok (operations, after))
    (ready : Ready scope [] l) (started : scope.started = true)
    (performed : performAll operations l = .ok l') :
    Ready after [] l' ∧ after.started = true := by
  obtain ⟨_, ⟨_, rfl, filters, found, rfl⟩ | ⟨range, length, rfl, walk⟩⟩ :=
    matchRelationship_cases compiled
  · have still := (scope.declared_started .relationship r.name).trans started
    obtain ⟨_, walked, _⟩ := performed_append.mp (List.append_assoc _ _ _ ▸ performed)
    obtain ⟨_, _, filtered⟩ := performed_cons.mp walked
    have passes : Passes (Known scope.bindings []) filters (Known scope.bindings []) :=
      filterOps_passes binds_of_knows found filtered
    have found := (edgeStep_passes r.direction r.types).append passes
    have labelled := found.append (labelOps_declare r.name .relationship scope)
    exact ⟨ready.pass started still (labelled.append (vertexStep_passes r.direction)) performed,
      still⟩
  · have still := (scope.declared_started .relationships r.name).trans started
    have several : Ready (scope.declared .relationships r.name) [] l := by
      refine ready.pass started still (.nil fun _ all t member => ?_) rfl
      cases named : r.name with
      | none => exact all t member
      | some name => exact (all t member).declare .relationships fun other => absurd rfl other
    obtain ⟨_, rfl⟩ | ⟨_, filters, found, rfl⟩ := walk
    · cases performed
      exact ⟨several, still⟩
    · have performs : Performs (hopOps r filters) :=
        Performs.within performed (loop_mem _ _) List.mem_cons_self
      exact ⟨several.pathLoop still (fits range length) (hopOps_passes found performs) performed,
        still⟩

theorem matchChain {chain : List (RelationshipPattern × NodePattern)}
    (fits : ∀ link ∈ chain, link.1.Fits)
    (compiled : (Cypher.matchChain chain).run scope = .ok (operations, after))
    (ready : Ready scope [] l) (started : scope.started = true)
    (performed : performAll operations l = .ok l') :
    Ready after [] l' ∧ after.started = true := by
  induction chain generalizing scope operations l with
  | nil =>
      cases compiled
      cases performed
      exact ⟨ready, started⟩
  | cons link rest ih =>
      obtain ⟨edge, walked, vertex, reached, others, first, second, third, rfl⟩ :=
        matchChain_cons compiled
      obtain ⟨hopped, performed, later⟩ := performed_append.mp performed
      obtain ⟨halfway, one, two⟩ := performed_append.mp performed
      have walks := ready.matchRelationship (fits _ List.mem_cons_self) first started one
      have ends := walks.1.matchEnd second walks.2 two
      exact ih (fun link member => fits link (List.mem_cons_of_mem _ member)) third ends.1 ends.2
        later

theorem matchPath {p : PathPattern} (fits : p.Fits)
    (compiled : (Cypher.matchPath p).run scope = .ok (operations, after))
    (ready : Ready scope [] l) (performed : performAll operations l = .ok l') :
    Ready after [] l' ∧ after.started = true := by
  obtain ⟨first, found, others, middle, start, one, chain, later⟩ := made_append compiled performed
  have starts := ready.matchStart start one
  exact starts.1.matchChain fits chain starts.2 later

theorem matchPaths {paths : List PathPattern} (fits : ∀ p ∈ paths, p.Fits)
    (compiled : (Cypher.matchPaths paths).run scope = .ok (operations, after))
    (ready : Ready scope [] l) (performed : performAll operations l = .ok l') :
    Ready after [] l' ∧ (scope.started = true ∨ paths ≠ [] → after.started = true) := by
  induction paths generalizing scope operations l with
  | nil =>
      cases compiled
      cases performed
      exact ⟨ready, fun started => started.resolve_right (absurd rfl)⟩
  | cons p rest ih =>
      obtain ⟨path, found, others, middle, first, one, second, later⟩ :=
        made_append compiled performed
      have walks := ready.matchPath (fits p List.mem_cons_self) first one
      have all := ih (fun p member => fits p (List.mem_cons_of_mem _ member)) second walks.1 later
      exact ⟨all.1, fun _ => all.2 (.inl walks.2)⟩

theorem matchClause {m : MatchClause} (fits : m.Fits)
    (compiled : (Cypher.matchClause m).run scope = .ok (operations, after))
    (ready : Ready scope [] l) (performed : performAll operations l = .ok l') :
    Ready after [] l' ∧ after.started = true := by
  obtain ⟨paths, first, ⟨_, rfl⟩ | ⟨e, inside, _, asked, rfl⟩⟩ := matchClause_cases compiled
  · have all := ready.matchPaths fits.paths first performed
    exact ⟨all.1, all.2 (.inr fits.some_)⟩
  · obtain ⟨found, walked, filtered⟩ := performed_append.mp performed
    have performs : Performs inside :=
      Performs.within filtered List.mem_cons_self List.mem_cons_self
    have all := ready.matchPaths fits.paths first walked
    have begun := all.2 (.inr fits.some_)
    have asks := conditionOps_passes asked performs
    exact ⟨all.1.pass begun begun (.where_ (asks.before knows_binds)) filtered, begun⟩

theorem matchClauses {clauses : List MatchClause} (fits : ∀ m ∈ clauses, m.Fits)
    (compiled : (Cypher.matchClauses clauses).run scope = .ok (operations, after))
    (ready : Ready scope [] l) (performed : performAll operations l = .ok l') :
    Ready after [] l' ∧ (scope.started = true ∨ clauses ≠ [] → after.started = true) := by
  induction clauses generalizing scope operations l with
  | nil =>
      cases compiled
      cases performed
      exact ⟨ready, fun started => started.resolve_right (absurd rfl)⟩
  | cons m rest ih =>
      obtain ⟨clause, found, others, middle, first, one, second, later⟩ :=
        made_append compiled performed
      have reached := ready.matchClause (fits m List.mem_cons_self) first one
      have all := ih (fun m member => fits m (List.mem_cons_of_mem _ member)) second reached.1 later
      exact ⟨all.1, fun _ => all.2 (.inl reached.2)⟩

end Ready

end Cypher

end PropertyGraph
