import PropertyGraph.Proofs.Client.Create
import PropertyGraph.Proofs.Cypher.SetClause
import PropertyGraph.Proofs.Cypher.Sorts

/-!
Queries that only change what their MATCH clauses find: what is found goes through the changes, and
nothing is returned. Those with SET write one property of the bound elements, row by row, and change
nothing else.
-/

namespace PropertyGraph

open Cypher Exec Plan Script Scripting

/-- MATCH clauses, and after them only SET or DELETE. -/
structure Query.OnlyChanges (q : Query) : Prop where
  matching : q.matches_ ≠ []
  noCreate : q.create = []
  noReturn : q.return_ = none

variable {q : Query} {scope : Cypher.Scope} {operations changed : Ops} {l found : Live}
  {stages : List Stage} {engine : Engine} {store : Store} {b : Bindings} {stream : Stream}

namespace Cypher

theorem nothing_returned : ∃ ends, Builds [.append .barrier [], .limit 0] ends ∧
    ∀ (engine : Engine) (stream : Stream) (world : World),
      (runStages engine ends stream).run world = (.ok [], world) := by
  have waits := Builds.step .barrier ⟨rfl, by decide⟩ rfl [] rfl
  have cuts := Builds.step .limit ⟨rfl, by decide⟩ rfl [.literal (.int 0)] rfl
  exact ⟨_, waits.append cuts, fun engine stream world => rfl⟩

/-- What MATCH clauses have found supports everything that follows. -/
theorem matched_ready (fits : ∀ m ∈ q.matches_, m.Fits) (matching : q.matches_ ≠ [])
    (compiled : (matchClauses q.matches_).run .empty = .ok (operations, scope))
    (performed : performAll operations Live.onGraph = .ok found) :
    Ready scope [] found ∧ scope.started = true := by
  obtain ⟨ready, starts⟩ := Ready.start.matchClauses fits compiled performed
  exact ⟨ready, starts (.inr matching)⟩

/-- What MATCH clauses have found stands at vertices and has labelled what the clauses declare. -/
theorem matched_stands (fits : ∀ m ∈ q.matches_, m.Fits)
    (compiled : (matchClauses q.matches_).run .empty = .ok (operations, scope))
    (performed : performAll operations Live.onGraph = .ok found)
    (ran : (found.plan.run engine []).run ⟨store, []⟩ = (.ok stream, ⟨store, []⟩)) :
    Standing scope.bindings .node stream := by
  have supplies := Ready.start.matchClauses_stand fits compiled Ready.nothing_supplied performed
  obtain ⟨result, after, _, plain, within⟩ := supplies.runs.plan engine [] rfl store
  rw [← Plan.settled_eq supplies.settled, ran] at plain
  cases plain
  exact within

end Cypher

namespace Query.OnlyChanges

theorem reachOps_run (only : q.OnlyChanges) (started : scope.started = true)
    (compiled : (matchClauses q.matches_).run .empty = .ok (operations, scope)) :
    (reachOps q).run .empty = (fun changed => (operations ++ changed, scope)) <$>
      changeOps scope.bindings q := by
  have nothing : (createPaths []).run scope = .ok ([], scope) := rfl
  have begun : startOps.run scope = .ok ([], scope) := by rw [startOps_run, if_pos started]
  rw [reachOps, only.noCreate]
  simp only [StateT.run_bind, compiled, ok_bind, nothing, begun]
  cases changes : changeOps scope.bindings q <;> simp [changes]

theorem split (only : q.OnlyChanges) (fits : ∀ m ∈ q.matches_, m.Fits)
    (built : q.buildOn Live.onGraph = .ok l) : ∃ operations scope found changed after,
      (matchClauses q.matches_).run .empty = .ok (operations, scope) ∧
      performAll operations Live.onGraph = .ok (found : Live) ∧
      changeOps scope.bindings q = .ok changed ∧ performAll changed found = .ok after := by
  obtain ⟨before, returned, scope, reached, compiled, _, first, _⟩ := built_parts built
  obtain ⟨operations, matched, created, written, started, changed, matching, _, _, _, same⟩ :=
    reachOps_parts compiled
  have begins : matched.started = true := by
    rw [same, List.append_assoc, List.append_assoc] at first
    obtain ⟨found, performed, _⟩ := performed_append.mp first
    exact (matched_ready fits only.matching matching performed).2
  rw [only.reachOps_run begins matching] at compiled
  obtain ⟨changes, listed, parts⟩ := map_eq_ok.mp compiled
  cases parts
  obtain ⟨found, performed, follows⟩ := performed_append.mp first
  exact ⟨operations, scope, found, changes, reached, matching, performed, listed, follows⟩

/-- Changes of what was found make a query, which runs what finds and then what changes. -/
theorem builds (only : q.OnlyChanges) (fits : ∀ m ∈ q.matches_, m.Fits)
    (compiled : (matchClauses q.matches_).run .empty = .ok (operations, scope))
    (performed : performAll operations Live.onGraph = .ok found)
    (changes : changeOps scope.bindings q = .ok changed) (builds : Builds changed stages) :
    ∃ l, q.buildOn Live.onGraph = .ok l ∧ ∀ (engine : Engine) (store : Store),
      let run := (found.plan.run engine [] >>= runStages engine stages).run ⟨store, []⟩
      l.execute engine store = ((fun _ => []) <$> run.1, run.2.store) := by
  obtain ⟨ready, started⟩ := matched_ready fits only.matching compiled performed
  obtain ⟨ends, last, cut⟩ := nothing_returned
  obtain ⟨program, done⟩ := builds.append last found ready.settled
  have script : q.script =
      .ok (.of (operations ++ (changed ++ [.append .barrier [], .limit 0]))) := by
    rw [Query.script, queryOps_run, only.reachOps_run started compiled, changes,
      only.noReturn]
    simp [returnedOps, Functor.map, Except.map, bind, Except.bind, pure, Except.pure]
  refine ⟨⟨found.bound, program, .mk (found.plan.stages ++ (stages ++ ends)) []⟩, ?_,
    fun engine store => ?_⟩
  · rw [Query.buildOn, script]
    have whole : (Script.of (operations ++ (changed ++ [.append .barrier [], .limit 0]))).perform
        Live.onGraph = performAll (changed ++ [.append .barrier [], .limit 0]) found := by
      rw [perform, performAll_append, performed]
      rfl
    simp only [whole, done]
  · have plan : (Plan.mk (found.plan.stages ++ (stages ++ ends)) []).run engine [] =
        (found.plan.run engine [] >>= runStages engine stages) >>= runStages engine ends := by
      rw [Plan.settled_eq ready.settled]
      change runStages engine _ [] = _
      rw [← List.append_assoc, runStages_append, runStages_append]
      rfl
    rw [Live.execute, ready.bound, if_pos rfl, Plan.execute, plan]
    generalize found.plan.run engine [] >>= runStages engine stages = before
    rw [run_bind]
    obtain ⟨result, world⟩ := before.run ⟨store, []⟩
    cases result with
    | error fault => rfl
    | ok out =>
        dsimp only
        rw [cut]
        rfl

end Query.OnlyChanges

end PropertyGraph

/-! ## Queries with SET -/

namespace PropertyGraph

open Cypher Exec Plan Script
open Application (vertexId?)
open PropertyGraph.Graph (valuesFor)

/-- SET writes one property and nothing else. Each row writes the value of the expression on the
graph that the rows before it left; the last value of an element counts, null takes the property
away, and all other properties stay in their order. -/
theorem set_writes_one_property (text : String) (parameters : Properties) {s : Statement} {l : Live}
    (parsed : Statement.parse text parameters = .ok s) (only : s.query.OnlyChanges) {item : SetItem}
    (sets : s.query.set = [item]) (noDelete : s.query.delete = none)
    (built : s.query.buildOn Live.onGraph = .ok l) {engine : Engine} {store after : Store}
    (distinct : store.graph.KeysDistinct) {found : List Value}
    (ran : l.execute engine store = (.ok found, after)) :
    ∃ b stream writes, s.query.Enters engine store b stream ∧
      Sets b item store.graph stream writes after.graph ∧
      store.graph.OnlyWritten item.key writes after.graph ∧
      (∀ v ∈ store.graph.vertices,
        let values := valuesFor vertexId? writes v.id
        Rewritten item.key values v.properties (rewritten item.key values v.properties)) ∧
      ∀ e ∈ store.graph.edges,
        let values := valuesFor Value.edgeId? writes e.id
        Rewritten item.key values e.properties (rewritten item.key values e.properties) := by
  have fits := Statement.parse_fits parsed
  obtain ⟨operations, scope, searched, changed, reached, compiled, performed, changes, follows⟩ :=
    only.split fits built
  obtain ⟨op, accepted, rfl⟩ : ∃ op, setOps scope.bindings item = .ok op ∧ changed = [op] := by
    rw [changeOps, sets, noDelete] at changes
    obtain ⟨several, setting, rest⟩ := bind_eq_ok.mp changes
    obtain ⟨op, accepted, same⟩ := bind_eq_ok.mp setting
    cases same
    cases rest
    exact ⟨op, accepted, rfl⟩
  obtain ⟨stage, builds, writing⟩ := setOps_sets accepted follows
  obtain ⟨l', built', executes⟩ := only.builds fits compiled performed changes builds
  cases built.symm.trans built'
  rw [executes] at ran
  obtain ⟨done, same⟩ := Prod.mk.inj ran
  obtain ⟨out, succeeds, _⟩ := map_eq_ok.mp done
  obtain ⟨stream, middle, first, second⟩ := runs_bind.mp (Prod.ext succeeds rfl)
  obtain ⟨rfl, _⟩ := matched_run fits compiled performed first
  obtain ⟨writes, written⟩ :=
    writing (matched_stands fits compiled performed first) rfl second
  rw [same] at written
  exact ⟨scope.bindings, stream, writes, .matched only.matching compiled performed first, written,
    written.onlyWritten, fun v member => rewritten_spec (distinct.1 v member),
    fun e member => rewritten_spec (distinct.2 e member)⟩

/-- Both rows write the same edge. -/
def numberedEdge : String := "MATCH (a)-[e:k]-(b) SET e.w = id(a)"

theorem last_row_numbers_the_edge : ∃ s l item found after b stream writes,
    Statement.parse numberedEdge [] = .ok s ∧ s.query.OnlyChanges ∧ s.query.set = [item] ∧
      s.query.delete = none ∧ s.query.buildOn Live.onGraph = .ok l ∧ Graph.oneEdge.KeysDistinct ∧
      l.execute (.standard 10) ⟨.oneEdge, .zero⟩ = (.ok found, after) ∧
      s.query.Enters (.standard 10) ⟨.oneEdge, .zero⟩ b stream ∧
      Sets b item .oneEdge stream writes after.graph ∧
      Graph.oneEdge.OnlyWritten item.key writes after.graph ∧
      after.graph.edges.map Edge.properties = [[("w", .int 2)]] := by
  have accepted : ((Statement.parse numberedEdge []).toOption.any fun s =>
      !s.query.matches_.isEmpty && s.query.create.isEmpty && s.query.return_.isNone
        && s.query.set.length == 1 && s.query.delete.isNone
        && ((s.query.buildOn Live.onGraph).toOption.any fun l =>
          let outcome := l.execute (.standard 10) ⟨.oneEdge, .zero⟩
          outcome.1.isOk && outcome.2.graph.edges.map Edge.properties == [[("w", .int 2)]])) =
      true := by decide +kernel
  have distinct : Graph.oneEdge.KeysDistinct := by
    unfold Graph.KeysDistinct
    decide
  cases parsed : Statement.parse numberedEdge [] with
  | error fault => simp [parsed, Except.toOption] at accepted
  | ok s =>
      cases built : s.query.buildOn Live.onGraph with
      | error fault => simp [parsed, built, Except.toOption] at accepted
      | ok l =>
          cases ran : l.execute (.standard 10) ⟨.oneEdge, .zero⟩ with
          | mk result after =>
              simp only [parsed, built, ran, Except.toOption, Option.any_some, Bool.and_eq_true,
                Bool.not_eq_true', List.isEmpty_eq_false_iff, List.isEmpty_iff,
                Option.isNone_iff_eq_none, beq_iff_eq] at accepted
              obtain ⟨⟨⟨⟨⟨matching, noCreate⟩, noReturn⟩, single⟩, noDelete⟩, succeeds, two⟩ :=
                accepted
              obtain ⟨item, sets⟩ := List.length_eq_one_iff.mp single
              cases result with
              | error fault => cases succeeds
              | ok found =>
                  have only : s.query.OnlyChanges := ⟨matching, noCreate, noReturn⟩
                  obtain ⟨b, stream, writes, enters, rows, written, _⟩ :=
                    set_writes_one_property numberedEdge [] parsed only sets noDelete built distinct
                      ran
                  exact ⟨s, l, item, found, after, b, stream, writes, rfl, only, sets, noDelete,
                    built, distinct, ran, enters, rows, written, two⟩

def Client.afterAll (texts : List String) : Client :=
  texts.foldl (fun client text => (client.submit text []).2) ⟨.empty, .standard 10, .groovy⟩

/-- A null in one row takes a key away, so that a later row writes it behind the others, and the
text that stands for null takes a key away although it is no null. -/
theorem nulls_move_and_remove_a_key :
    let made := "CREATE (x {k: 1, j: 2}), (y), (z {v: 5}), (x)-[:r]->(y), (x)-[:r]->(z)"
    let copied := "MATCH (x)-[:r]->(y) SET x.k = y.v"
    let texts := "MATCH (x)-[:r]->() SET x.k = '  cypher.null'"
    let tables (texts : List String) :=
      (Client.afterAll texts).store.graph.vertices.map Vertex.properties
    (((Client.afterAll [made]).submit copied []).1 matches .rows []) ∧
      tables [made] = [[("k", .int 1), ("j", .int 2)], [], [("v", .int 5)]] ∧
      tables [made, copied] = [[("j", .int 2), ("k", .int 5)], [], [("v", .int 5)]] ∧
      tables [made, texts] = [[("j", .int 2)], [], [("v", .int 5)]] ∧
      Value.string "  cypher.null" ≠ .null := by
  decide +kernel

end PropertyGraph
