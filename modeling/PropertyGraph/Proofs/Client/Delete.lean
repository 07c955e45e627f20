import PropertyGraph.Proofs.Client.Changing
import PropertyGraph.Proofs.Cypher.DeleteClause

/-!
Queries with DELETE as a whole: the graph is left without the elements that were bound, and without
the edges of bound vertices, however often and in whatever order they are named.
-/

namespace PropertyGraph

open Cypher Exec Plan Script
open Application (vertexId?)

namespace Cypher

variable {q : Query} {b : Bindings} {d : DeleteClause} {engine : Engine} {store : Store}
  {stream : Stream}

/-- What is left of a graph without the elements that some names stand for in some row. -/
def LeavesOthers (b : Bindings) (names : List String) (stream : Stream) (before after : Graph) :
    Prop :=
  before.Without ((boundElements b names stream).filterMap vertexId?)
    ((boundElements b names stream).filterMap Value.edgeId?) after

theorem mem_boundElements {names : List String} {v : Value} :
    v ∈ boundElements b names stream ↔ ∃ t ∈ stream, ∃ name ∈ names, v ∈ t.elements b name := by
  simp [boundElements]

/-- Which names there are matters, not their order and not how often. -/
theorem LeavesOthers.congr {names others : List String} {before after : Graph}
    (leaves : LeavesOthers b names stream before after)
    (same : ∀ name, name ∈ names ↔ name ∈ others) :
    LeavesOthers b others stream before after := by
  refine Graph.Without.congr leaves (fun id => ?_) fun id => ?_ <;>
    simp only [List.mem_filterMap, mem_boundElements, same]

theorem kindsOf_ok {names : List String}
    (declared : ∀ name ∈ names, (Dictionary.get? name b).isSome) :
    ∃ targets, kindsOf b names = .ok targets := by
  induction names with
  | nil => exact ⟨[], rfl⟩
  | cons name rest ih =>
      obtain ⟨first, others⟩ := List.forall_mem_cons.mp declared
      obtain ⟨kind, found⟩ := Option.isSome_iff_exists.mp first
      obtain ⟨targets, accepted⟩ := ih others
      have known : kindOf b name = .ok kind := by simp [kindOf, found]
      exact ⟨(kind, name) :: targets, by rw [kindsOf, known, accepted]; rfl⟩

/-- A clause with the names of one that is accepted is accepted. -/
theorem deleteOps_accepted {d d' : DeleteClause} {operations : Ops}
    (compiled : deleteOps b d = .ok operations) (same : ∀ name ∈ d'.names, name ∈ d.names) :
    ∃ others, deleteOps b d' = .ok others := by
  obtain ⟨targets, found, _⟩ := bind_eq_ok.mp compiled
  obtain ⟨others, accepted⟩ : ∃ others, kindsOf b d'.names = .ok others := by
    refine kindsOf_ok fun name member => ?_
    have listed := same name member
    rw [← kindsOf_names found] at listed
    obtain ⟨target, stands, rfl⟩ := List.mem_map.mp listed
    rw [kindsOf_declared found target stands]
    rfl
  exact ⟨_, by rw [deleteOps, accepted]; rfl⟩

/-- Whatever was found, deleting it succeeds, and leaves all other elements. -/
theorem delete_executes (only : q.OnlyChanges) (noSet : q.set = []) (deletes : q.delete = some d)
    (fits : ∀ m ∈ q.matches_, m.Fits) {operations found : Ops} {scope : Scope} {searched : Live}
    (compiled : (matchClauses q.matches_).run .empty = .ok (found, scope))
    (performed : performAll found Live.onGraph = .ok searched)
    (accepted : deleteOps scope.bindings d = .ok operations)
    (ran : (searched.plan.run engine []).run ⟨store, []⟩ = (.ok stream, ⟨store, []⟩))
    (reachable : store.graph.Reachable) :
    ∃ l after, q.buildOn Live.onGraph = .ok l ∧ l.execute engine store = (.ok [], after) ∧
      LeavesOthers scope.bindings d.names stream store.graph after.graph := by
  have changes : changeOps scope.bindings q = .ok operations := by
    rw [changeOps, noSet, deletes]
    simp [setAll, accepted]
  obtain ⟨dropped, ⟨stages, builds, runs⟩, listed⟩ := deleteOps_drop accepted
  obtain ⟨l, built, executes⟩ := only.builds fits compiled performed changes builds
  have stands := matched_stands fits compiled performed ran
  refine ⟨l, ((⟨store, []⟩ : World).dropping (dropped stream)).store, built, ?_, ?_⟩
  · have whole : (searched.plan.run engine [] >>= runStages engine stages).run ⟨store, []⟩ = _ :=
      runs_bind.mpr ⟨stream, _, ran, runs engine stream _ stands rfl⟩
    rw [executes, whole]
    rfl
  · rw [World.dropping_graph]
    have left := (Graph.Without.refl reachable).discards (dropped stream)
    refine left.congr (fun id => ?_) fun id => ?_ <;>
      simp only [List.nil_append, List.mem_filterMap, listed]

end Cypher

/-- DELETE removes exactly the bound elements, with the edges of bound vertices, and does not fail
for elements that are gone already. The same names in another clause have the same effect. -/
theorem delete_removes_exactly_bound_elements (text : String) (parameters : Properties)
    {s : Statement} {l : Live} (parsed : Statement.parse text parameters = .ok s)
    (only : s.query.OnlyChanges) (noSet : s.query.set = []) {d : DeleteClause}
    (deletes : s.query.delete = some d) (built : s.query.buildOn Live.onGraph = .ok l)
    {engine : Engine} {store : Store} (reachable : store.graph.Reachable) {b : Bindings}
    {stream : Stream} (enters : s.query.Enters engine store b stream) :
    (∃ after, l.execute engine store = (.ok [], after) ∧
      LeavesOthers b d.names stream store.graph after.graph) ∧
    ∀ d' : DeleteClause, (∀ name, name ∈ d'.names ↔ name ∈ d.names) → ∃ l' after,
      { s.query with delete := some d' }.buildOn Live.onGraph = .ok l' ∧
        l'.execute engine store = (.ok [], after) ∧
          LeavesOthers b d.names stream store.graph after.graph := by
  have fits := Statement.parse_fits parsed
  cases enters with
  | alone unmatched => exact absurd unmatched only.matching
  | @matched found scope searched _ _ compiled performed ran =>
      obtain ⟨_, _, _, changed, _, compiled', _, changes, _⟩ := only.split fits built
      cases compiled.symm.trans compiled'
      obtain ⟨operations, accepted⟩ :
          ∃ operations, deleteOps scope.bindings d = .ok operations := by
        obtain ⟨_, _, later⟩ := bind_eq_ok.mp changes
        obtain ⟨operations, accepted, _⟩ := bind_eq_ok.mp later
        rw [deletes] at accepted
        exact ⟨operations, accepted⟩
      refine ⟨?_, fun d' same => ?_⟩
      · obtain ⟨l', after, built', executed, leaves⟩ :=
          delete_executes only noSet deletes fits compiled performed accepted ran reachable
        cases built.symm.trans built'
        exact ⟨after, executed, leaves⟩
      · obtain ⟨others, accepted'⟩ :=
          deleteOps_accepted accepted fun name member => (same name).mp member
        obtain ⟨l', after, built', executed, leaves⟩ := delete_executes
          (q := { s.query with delete := some d' }) ⟨only.matching, only.noCreate, only.noReturn⟩
          noSet rfl fits compiled performed accepted' ran reachable
        exact ⟨l', after, built', executed, leaves.congr same⟩

/-- Whether the MATCH clauses of a query run, and find so many rows. -/
def Query.finds (q : Query) (engine : Engine) (store : Store) (count : Nat) : Bool :=
  match (matchClauses q.matches_).run .empty with
  | .error _ => false
  | .ok (operations, _) =>
      match performAll operations Live.onGraph with
      | .error _ => false
      | .ok found =>
          match ((found.plan.run engine []).run ⟨store, []⟩).1 with
          | .error _ => false
          | .ok stream => stream.length == count

theorem Query.enters_of_finds {q : Query} {engine : Engine} {count : Nat} {store : Store}
    (fits : ∀ m ∈ q.matches_, m.Fits) (matching : q.matches_ ≠ [])
    (finds : q.finds engine store count = true) :
    ∃ b stream, q.Enters engine store b stream ∧ stream.length = count := by
  unfold Query.finds at finds
  split at finds
  · cases finds
  · next operations scope compiled =>
      split at finds
      · cases finds
      · next found performed =>
          split at finds
          · cases finds
          · next stream ran =>
              obtain ⟨same, _⟩ := matched_run fits compiled performed (Prod.ext ran rfl)
              exact ⟨scope.bindings, stream,
                .matched matching compiled performed (Prod.ext ran same), eq_of_beq finds⟩

/-- An edge is named as what is in a list and on its own, and goes with its vertices besides. Four
rows have the same elements, and one name is repeated. -/
def everythingTwice : String := "MATCH ()-[p:k*1..1]-(), (a)-[e:k]-() DELETE a, p, e, a"

theorem everything_is_deleted_once : ∃ s l d b stream,
    Statement.parse everythingTwice [] = .ok s ∧ s.query.OnlyChanges ∧ s.query.set = [] ∧
      s.query.delete = some d ∧ s.query.buildOn Live.onGraph = .ok l ∧ Graph.oneEdge.Reachable ∧
      s.query.Enters (.standard 10) ⟨.oneEdge, .zero⟩ b stream ∧ stream.length = 4 ∧
      ∃ after, l.execute (.standard 10) ⟨.oneEdge, .zero⟩ = (.ok [], after) ∧
        LeavesOthers b d.names stream .oneEdge after.graph := by
  have accepted : ((Statement.parse everythingTwice []).toOption.any fun s =>
      !s.query.matches_.isEmpty && s.query.create.isEmpty && s.query.return_.isNone
        && s.query.set.isEmpty && s.query.delete.isSome && (s.query.buildOn Live.onGraph).isOk
        && s.query.finds (.standard 10) ⟨.oneEdge, .zero⟩ 4) = true := by decide +kernel
  cases parsed : Statement.parse everythingTwice [] with
  | error fault => simp [parsed, Except.toOption] at accepted
  | ok s =>
      simp only [parsed, Except.toOption, Option.any_some, Bool.and_eq_true, Bool.not_eq_true',
        List.isEmpty_eq_false_iff, List.isEmpty_iff, Option.isNone_iff_eq_none] at accepted
      obtain ⟨⟨⟨⟨⟨⟨matching, noCreate⟩, noReturn⟩, noSet⟩, deletes⟩, builds⟩, finds⟩ := accepted
      obtain ⟨d, deletes⟩ := Option.isSome_iff_exists.mp deletes
      obtain ⟨b, stream, enters, four⟩ :=
        Query.enters_of_finds (Statement.parse_fits parsed) matching finds
      cases built : s.query.buildOn Live.onGraph with
      | error fault => simp [built, Except.isOk, Except.toBool] at builds
      | ok l =>
          have only : s.query.OnlyChanges := ⟨matching, noCreate, noReturn⟩
          have deleted := delete_removes_exactly_bound_elements everythingTwice [] parsed only noSet
            deletes built Graph.oneEdge_reachable enters
          exact ⟨s, l, d, b, stream, rfl, only, noSet, deletes, built, Graph.oneEdge_reachable,
            enters, four, deleted.1⟩

end PropertyGraph
