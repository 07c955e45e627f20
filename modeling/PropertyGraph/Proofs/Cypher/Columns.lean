import PropertyGraph.Cypher.ReturnScript
import PropertyGraph.Proofs.Cypher.Compilation

/-!
Columns of RETURN clauses: expressions have their values, and whole elements are described with
their properties.
-/

namespace PropertyGraph

namespace Graph

/-- An element as a map: its id and its label before its properties. -/
def describe (g : Graph) (v : Value) : Except ExecutionFault Value := do
  let id ← v.elementId
  let label ← v.elementLabel
  return .record ([("~id", id), ("~label", label)] ++ (← g.propertiesOf v))

def endOf (g : Graph) (kind : StepKind) (choose : EdgeRef → VertexId) :
    Value → Except ExecutionFault Value
  | .edge e =>
      match g.vertex? (choose e) with
      | some v => .ok (.vertex v.ref)
      | none => .error (.missing (.vertex (choose e)))
  | other => .error (.inapplicable kind other.typeName)

/-- A relationship with its properties and the ids of its ends. -/
def describeEdge (g : Graph) (v : Value) : Except ExecutionFault Value := do
  let element ← g.describe v
  let target ← g.endOf .inV EdgeRef.target v >>= Value.elementId
  let source ← g.endOf .outV EdgeRef.source v >>= Value.elementId
  return .record [(Cypher.elementKey, element), (Cypher.targetKey, target),
    (Cypher.sourceKey, source)]

end Graph

open Exec Plan Script

namespace Cypher

def columnValue (b : Bindings) (env : Environment) (e : Expression) :
    Except ExecutionFault Value :=
  match e with
  | .reference name =>
      let found := (env.value? name).getD Value.unknown
      match Dictionary.get? name b with
      | some .node => env.graph.describe found
      | some .relationship => env.graph.describeEdge found
      | _ => .list <$> (Application.parts found).mapM env.graph.describeEdge
  | e => e.evaluate env

variable {b : Bindings} {operations : Ops}

namespace Moves

theorem valueMap : Moves IsOne [.append .valueMap [.literal (.bool true)]] Graph.describe := by
  refine step ⟨rfl, by decide⟩ rfl ⟨[.literal (.bool true)], rfl, rfl, rfl⟩ ?_
  intro engine world t
  refine mapEach_one ?_
  have known := propertiesOf_gives world t.object
  cases place : t.object with
  | vertex v =>
      rw [place] at known
      exact (Gives.pure _).bind_ok (known.bind fun properties _ => Gives.pure _)
  | edge e =>
      rw [place] at known
      exact (Gives.pure _).bind_ok (known.bind fun properties _ => Gives.pure _)
  | _ => rfl

theorem endOf (kind : StepKind) (plain : kind.IsPlain) (inner : kind.isEntry = false)
    (choose : EdgeRef → VertexId) (runs : ∀ engine stream,
      Application.perform engine ⟨kind, [], [], []⟩ stream =
        Application.endpoint ⟨kind, [], [], []⟩ (fun e _ => choose e) stream) :
    Moves IsOne [.append kind [] inner] fun g v => g.endOf kind choose v := by
  refine step plain inner ⟨[], rfl, rfl, rfl⟩ ?_
  intro engine world t
  refine (runs engine [t]).symm ▸ mapEach_one ?_
  cases t.object with
  | edge e =>
      refine Gives.graph.bind_ok ?_
      simp only [Graph.endOf]
      cases found : world.store.graph.vertex? (choose e) with
      | none => exact Gives.throw _
      | some v => exact Gives.pure _
  | _ => exact Gives.throw _

theorem unfold : Moves HasObjects [.append .unfold []] fun _ v => .ok (Application.parts v) := by
  refine step ⟨rfl, by decide⟩ rfl ⟨[], rfl, rfl, rfl⟩ ?_
  intro engine world t
  change Shows world HasObjects (forEach _ [t]) _
  rw [forEach_one]
  refine .pure ?_
  simp [HasObjects, objects, Function.comp_def, Traverser.split, Traverser.object]

end Moves

theorem relationshipColumn_describes : ∃ stages, Builds relationshipColumn stages ∧
    ∀ engine world stream, Shows world HasObjects (runStages engine stages stream)
      ((objects stream).mapM world.store.graph.describeEdge) := by
  obtain ⟨element, makesElement, runElement⟩ := Moves.valueMap.child
  obtain ⟨target, makesTarget, runTarget⟩ :=
    ((Moves.endOf .inV ⟨rfl, by decide⟩ rfl EdgeRef.target fun _ _ => rfl).andThen .id).child
  obtain ⟨source, makesSource, runSource⟩ :=
    ((Moves.endOf .outV ⟨rfl, by decide⟩ rfl EdgeRef.source fun _ _ => rfl).andThen .id).child
  have named : [elementKey, targetKey, sourceKey] ≠ [] := by decide
  obtain ⟨stage, builds, projects⟩ := projection named
    (.cons makesElement (.cons makesTarget (.cons makesSource .nil))) rfl
  refine ⟨[stage], builds, fun engine world stream => ?_⟩
  obtain ⟨record, runs, gives⟩ := projects engine
  rw [runStages_one, runs]
  refine mapEach_shows fun t _ => ?_
  have recorded := gives world t _ (.cons (runElement engine world t)
    (.cons (runTarget engine world t) (.cons (runSource engine world t) .nil)))
  simpa [List.mapM_cons, Graph.describeEdge] using recorded

namespace Moves

theorem relationship : Moves IsOne relationshipColumn Graph.describeEdge := by
  obtain ⟨stages, builds, run⟩ := relationshipColumn_describes
  refine ⟨stages, builds, fun engine world t => ?_⟩
  have described := run engine world [t]
  have single : (objects [t]).mapM world.store.graph.describeEdge =
      (fun v => [v]) <$> world.store.graph.describeEdge t.object := by
    simp [objects]
  rw [single] at described
  exact described.one

theorem relationships :
    Moves IsOne ([.append .unfold []] ++ relationshipColumn ++ [.append .fold []]) fun g v =>
      .list <$> (Application.parts v).mapM g.describeEdge := by
  obtain ⟨stages, builds, run⟩ := relationshipColumn_describes
  have described : Moves HasObjects ([.append .unfold []] ++ relationshipColumn) fun g v =>
      Except.ok (Application.parts v) >>= fun parts => parts.mapM g.describeEdge := by
    refine unfold.follow builds ?_
    rintro engine world stream _ rfl
    exact run engine world stream
  exact described.fold

end Moves

/-- A column leads a traverser to its value. -/
theorem columnOps_computes {e : Expression} (compiled : columnOps b e = .ok operations)
    (performs : Performs operations) :
    Computes b operations fun env => columnValue b env e := by
  unfold columnOps at compiled
  split at compiled
  · next name =>
      obtain ⟨kind, declared, compiled⟩ := bind_eq_ok.mp compiled
      have known := kindOf_eq declared
      cases kind with
      | node =>
          cases compiled
          refine ((Leads.select known (by decide)).andThen .valueMap).congr fun env => ?_
          simp only [columnValue, known]
          rfl
      | relationship =>
          cases compiled
          refine ((Leads.select known (by decide)).andThen .relationship).congr fun env => ?_
          simp only [columnValue, known]
          rfl
      | relationships =>
          cases compiled
          refine ((Leads.selectAll known).andThen .relationships).congr fun env => ?_
          simp only [columnValue, known]
          rfl
  · next plain =>
      refine (valueOps_computes e compiled performs).congr fun env => ?_
      cases e with
      | reference name => exact absurd rfl (plain name)
      | _ => rfl

end Cypher

end PropertyGraph
