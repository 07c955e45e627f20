import PropertyGraph.Proofs.Run.Discipline
import PropertyGraph.Proofs.Run.Observation

/-!
Counters. They never decide what a run does: from stores that hold the same graph, a plan comes to
the same result and leaves the same graph behind. And they never miss an insertion: however a run
ends, what it made of the graph is what requests in turn make of it, and the counters of insertions
grew by the ids that these requests were given; counters of queries are none of a run's business.
-/

namespace PropertyGraph

/-- Worlds that differ in their counters at most. -/
structure World.SameButMetrics (left right : World) : Prop where
  graph : left.store.graph = right.store.graph
  sideEffects : left.sideEffects = right.sideEffects

namespace Exec

def Unmetered {α : Type} (m : Exec α) : Prop :=
  ∀ left right, World.SameButMetrics left right →
    (m.run left).1 = (m.run right).1 ∧ World.SameButMetrics (m.run left).2 (m.run right).2

namespace Unmetered

variable {α β : Type}

/-- Worlds that differ in their counters at most are one world with two sets of counters. -/
theorem of_counters {m : Exec α} (runs : ∀ graph known (counters others : Metrics),
    (m.run ⟨⟨graph, counters⟩, known⟩).1 = (m.run ⟨⟨graph, others⟩, known⟩).1 ∧
      World.SameButMetrics (m.run ⟨⟨graph, counters⟩, known⟩).2
        (m.run ⟨⟨graph, others⟩, known⟩).2) : Unmetered m := by
  rintro ⟨⟨graph, counters⟩, known⟩ ⟨⟨other, others⟩, otherKnown⟩ ⟨sameGraph, sameKnown⟩
  cases sameGraph
  cases sameKnown
  exact runs graph known counters others

theorem pure (a : α) : Unmetered (Pure.pure a : Exec α) :=
  fun _ _ same => ⟨rfl, same⟩

theorem throw (fault : ExecutionFault) : Unmetered (MonadExcept.throw fault : Exec α) :=
  fun _ _ same => ⟨rfl, same⟩

theorem bind {m : Exec α} {f : α → Exec β} (first : Unmetered m)
    (next : ∀ a, Unmetered (f a)) : Unmetered (m >>= f) := by
  intro left right same
  obtain ⟨sameResult, sameAfter⟩ := first left right same
  rw [run_bind, run_bind]
  generalize m.run left = seen at sameResult sameAfter
  generalize m.run right = other at sameResult sameAfter
  obtain ⟨result, leftAfter⟩ := seen
  obtain ⟨_, rightAfter⟩ := other
  cases sameResult
  cases result with
  | ok a => exact next a leftAfter rightAfter sameAfter
  | error fault => exact ⟨rfl, sameAfter⟩

theorem graph : Unmetered Exec.graph :=
  fun _ _ same => ⟨congrArg Except.ok same.graph, same⟩

theorem sideEffects : Unmetered Exec.sideEffects :=
  fun _ _ same => ⟨congrArg Except.ok same.sideEffects, same⟩

theorem remember (key : String) (values : List Value) :
    Unmetered (modify (Application.remember key values) : Exec Unit) := by
  intro left right same
  refine ⟨rfl, same.graph, ?_⟩
  change Dictionary.put _ ((Dictionary.get? _ left.sideEffects).getD [] ++ _) left.sideEffects =
    Dictionary.put _ ((Dictionary.get? _ right.sideEffects).getD [] ++ _) right.sideEffects
  rw [same.sideEffects]

theorem createVertex (label : Option String) : Unmetered (Exec.createVertex label) :=
  .of_counters fun _ _ _ _ => ⟨rfl, rfl, rfl⟩

theorem createEdge_run {label : String} {source target : VertexId} {graph : Graph}
    {counters : Metrics} {known : Dictionary String (List Value)} :
    (Exec.createEdge label source target).run ⟨⟨graph, counters⟩, known⟩ =
      match graph.addEdge label source target [] with
      | .ok (id, changed) => (.ok (.edge ⟨id, label, source, target⟩),
          ⟨⟨changed, { counters with edgesInserted := counters.edgesInserted + 1 }⟩, known⟩)
      | .error absent => (.error (.missing absent), ⟨⟨graph, counters⟩, known⟩) := by
  rw [Exec.createEdge, run_bind]
  change ((Exec.liftFault .missing
    ((graph.addEdge label source target []).bind fun created => _)) >>= _).run _ = _
  cases graph.addEdge label source target [] <;> rfl

theorem createEdge (label : String) (source target : VertexId) :
    Unmetered (Exec.createEdge label source target) := by
  refine .of_counters fun graph _ _ _ => ?_
  rw [createEdge_run, createEdge_run]
  cases graph.addEdge label source target [] with
  | ok created => exact ⟨rfl, rfl, rfl⟩
  | error absent => exact ⟨rfl, rfl, rfl⟩

theorem update_run {change : Graph → Except MissingElement Graph} {graph : Graph}
    {counters : Metrics} {known : Dictionary String (List Value)} :
    (Exec.update change).run ⟨⟨graph, counters⟩, known⟩ =
      match change graph with
      | .ok changed => (.ok (), ⟨⟨changed, counters⟩, known⟩)
      | .error absent => (.error (.missing absent), ⟨⟨graph, counters⟩, known⟩) := by
  rw [Exec.update, run_bind]
  change ((Exec.liftFault .missing (change graph)) >>= _).run _ = _
  cases change graph <;> rfl

theorem update (change : Graph → Except MissingElement Graph) : Unmetered (Exec.update change) := by
  refine .of_counters fun graph _ _ _ => ?_
  rw [update_run, update_run]
  cases change graph with
  | ok changed => exact ⟨rfl, rfl, rfl⟩
  | error absent => exact ⟨rfl, rfl, rfl⟩

theorem countDrop : Unmetered (modify fun world : World =>
    { world with store := world.store.countDrop } : Exec Unit) :=
  fun _ _ same => ⟨rfl, same.graph, same.sideEffects⟩

end Unmetered

/-- Runs that do not depend on counters. -/
def unmetered : WritingDiscipline where
  holds := Unmetered
  pure := .pure
  throw fault _ := .throw fault
  bind := .bind
  graph := .graph
  sideEffects := .sideEffects
  remember := .remember
  createVertex := .createVertex
  createEdge := .createEdge
  update _ := .update _
  countDrop := .countDrop

end Exec

/-- A plan comes to the same result on stores with the same graph, and leaves the same graph. -/
theorem Plan.execute_unmetered (engine : Engine) (plan : Plan) (left right : Store)
    (same : left.graph = right.graph) :
    (plan.execute engine left).1 = (plan.execute engine right).1 ∧
      (plan.execute engine left).2.graph = (plan.execute engine right).2.graph := by
  obtain ⟨sameResult, sameAfter⟩ :=
    plan.run_keeps (Exec.unmetered.permits_all (.throw _)) engine
      (plan.uses_of_all fun _ => trivial) [] ⟨left, []⟩ ⟨right, []⟩ ⟨same, rfl⟩
  simp only [Plan.execute]
  generalize (plan.run engine []).run ⟨left, []⟩ = seen at sameResult sameAfter
  generalize (plan.run engine []).run ⟨right, []⟩ = other at sameResult sameAfter
  obtain ⟨result, leftAfter⟩ := seen
  obtain ⟨_, rightAfter⟩ := other
  cases sameResult
  cases result with
  | ok stream => exact ⟨rfl, sameAfter.graph⟩
  | error fault => exact ⟨rfl, sameAfter.graph⟩

/-! Insertions are counted. -/

open PropertyGraph.Graph

/-- A store after requests to its graph, with the ids that they were given counted. -/
structure Store.Inserts (before : Store) (requests : List Graph.Request) (after : Store) :
    Prop where
  graph : after.graph = (Request.performAll before.graph requests).2
  vertices : after.metrics.verticesInserted = before.metrics.verticesInserted +
    ((Request.performAll before.graph requests).1.filterMap Answer.vertex?).length
  edges : after.metrics.edgesInserted = before.metrics.edgesInserted +
    ((Request.performAll before.graph requests).1.filterMap Answer.edge?).length

namespace Store.Inserts

variable {before middle after : Store} {requests others : List Graph.Request}

theorem refl (store : Store) : store.Inserts [] store := ⟨rfl, rfl, rfl⟩

theorem trans (first : before.Inserts requests middle) (second : middle.Inserts others after) :
    before.Inserts (requests ++ others) after := by
  have graph := second.graph
  have vertices := second.vertices
  have edges := second.edges
  rw [first.graph] at graph vertices edges
  rw [first.vertices, Nat.add_assoc, ← List.length_append, ← List.filterMap_append] at vertices
  rw [first.edges, Nat.add_assoc, ← List.length_append, ← List.filterMap_append] at edges
  constructor <;> rw [Request.performAll_append]
  · exact graph
  · exact vertices
  · exact edges

end Store.Inserts

/-- Counters that differ in what became of the graph at most. -/
structure Metrics.SameQueries (before after : Metrics) : Prop where
  queries : after.queries = before.queries
  succeeded : after.succeeded = before.succeeded
  failed : after.failed = before.failed
  slow : after.slow = before.slow
  rows : after.rows = before.rows
  compilations : after.compilations = before.compilations
  explanations : after.explanations = before.explanations
  rejections : after.rejections = before.rejections

namespace Metrics.SameQueries

variable {before middle after : Metrics}

theorem refl (m : Metrics) : m.SameQueries m := ⟨rfl, rfl, rfl, rfl, rfl, rfl, rfl, rfl⟩

theorem recounted (m : Metrics) (verticesInserted edgesInserted elementsDropped : Nat) :
    m.SameQueries { m with verticesInserted, edgesInserted, elementsDropped } :=
  ⟨rfl, rfl, rfl, rfl, rfl, rfl, rfl, rfl⟩

theorem trans (first : before.SameQueries middle) (second : middle.SameQueries after) :
    before.SameQueries after where
  queries := second.queries.trans first.queries
  succeeded := second.succeeded.trans first.succeeded
  failed := second.failed.trans first.failed
  slow := second.slow.trans first.slow
  rows := second.rows.trans first.rows
  compilations := second.compilations.trans first.compilations
  explanations := second.explanations.trans first.explanations
  rejections := second.rejections.trans first.rejections

end Metrics.SameQueries

namespace Exec

variable {α β : Type}

/-- However it ends, insertions are counted, and no queries. -/
def CountsInsertions (m : Exec α) : Prop :=
  ∀ world : World, (∃ requests, world.store.Inserts requests (m.run world).2.store) ∧
    world.store.metrics.SameQueries (m.run world).2.store.metrics

namespace CountsInsertions

theorem of_kept {m : Exec α} (kept : ∀ world, (m.run world).2.store = world.store) :
    CountsInsertions m := by
  intro world
  rw [kept]
  exact ⟨⟨[], .refl _⟩, .refl _⟩

theorem bind {m : Exec α} {f : α → Exec β} (first : CountsInsertions m)
    (next : ∀ a, CountsInsertions (f a)) : CountsInsertions (m >>= f) := by
  intro world
  obtain ⟨⟨requests, inserts⟩, same⟩ := first world
  rw [run_bind]
  generalize m.run world = seen at inserts same
  obtain ⟨result, after⟩ := seen
  cases result with
  | error fault => exact ⟨⟨requests, inserts⟩, same⟩
  | ok a =>
      obtain ⟨⟨others, more⟩, still⟩ := next a after
      exact ⟨⟨requests ++ others, inserts.trans more⟩, same.trans still⟩

theorem createVertex (label : Option String) : CountsInsertions (Exec.createVertex label) :=
  fun _ => ⟨⟨[.addVertex (label.getD defaultLabel)], rfl, rfl, rfl⟩, .recounted _ _ _ _⟩

theorem createEdge (label : String) (source target : VertexId) :
    CountsInsertions (Exec.createEdge label source target) := by
  rintro ⟨⟨graph, counters⟩, known⟩
  rw [Unmetered.createEdge_run]
  cases added : graph.addEdge label source target [] with
  | ok created =>
      refine ⟨⟨[.addEdge label source target], ?_⟩, .recounted _ _ _ _⟩
      constructor <;> simp [Request.performAll, Request.perform, added, Answer.vertex?, Answer.edge?]
  | error absent => exact ⟨⟨[], .refl _⟩, .refl _⟩

theorem update {change : Graph → Except MissingElement Graph} (requested : IsRequested change) :
    CountsInsertions (Exec.update change) := by
  rintro ⟨⟨graph, counters⟩, known⟩
  rw [Unmetered.update_run]
  cases changes : change graph with
  | ok changed =>
      obtain ⟨request, performed⟩ := requested graph
      obtain ⟨noVertex, noEdge⟩ := Request.answered_gives_no_id graph (change graph)
      have after : (graph.answered (change graph)).2 = changed := by
        rw [changes]
        rfl
      refine ⟨⟨[request], ?_⟩, .refl _⟩
      constructor <;> simp [Request.performAll, performed, noVertex, noEdge, after]
  | error absent => exact ⟨⟨[], .refl _⟩, .refl _⟩

theorem countDrop : CountsInsertions (modify fun world : World =>
    { world with store := world.store.countDrop } : Exec Unit) :=
  fun _ => ⟨⟨[], rfl, rfl, rfl⟩, .recounted _ _ _ _⟩

end CountsInsertions

/-- Runs whose insertions are counted. -/
def counted : WritingDiscipline where
  holds := CountsInsertions
  pure _ := .of_kept fun _ => rfl
  throw _ _ := .of_kept fun _ => rfl
  bind := .bind
  graph := .of_kept fun _ => rfl
  sideEffects := .of_kept fun _ => rfl
  remember _ _ := .of_kept fun _ => rfl
  createVertex := .createVertex
  createEdge := .createEdge
  update := .update
  countDrop := .countDrop

end Exec

/-- A traversal counts its insertions, also where it fails later. -/
theorem Live.execute_counts (engine : Engine) (l : Live) (store : Store) :
    (∃ requests, store.Inserts requests (l.execute engine store).2) ∧
      store.metrics.SameQueries (l.execute engine store).2.metrics := by
  unfold execute
  split
  · have counts := l.plan.run_keeps (Exec.counted.permits_all (.of_kept fun _ => rfl)) engine
      (l.plan.uses_of_all fun _ => trivial) [] ⟨store, []⟩
    rw [Plan.execute]
    generalize (l.plan.run engine []).run ⟨store, []⟩ = seen at counts
    obtain ⟨result, after⟩ := seen
    cases result with
    | ok stream => exact counts
    | error fault => exact counts
  · exact ⟨⟨[], .refl _⟩, .refl _⟩

end PropertyGraph
