import PropertyGraph.Proofs.Client.Structure
import PropertyGraph.Proofs.Cypher.Anonymous
import PropertyGraph.Proofs.Cypher.CreateClause
import PropertyGraph.Proofs.Client.ReadOnly

/-!
Queries with CREATE as a whole: the rows that come to the clause, and the graph that is there when
the query has succeeded.
-/

namespace PropertyGraph

open Cypher Exec Plan Script Scripting

def Query.patternNames (q : Query) : List String :=
  q.matches_.flatMap MatchClause.names ++ q.create.flatMap PathPattern.names

/-- What comes to the CREATE clause of a query: the variables before it, and the traversers that the
MATCH clauses lead to, or a single one without them. -/
inductive Query.Enters (q : Query) (engine : Engine) (store : Store) : Bindings → Stream → Prop
  | alone (unmatched : q.matches_ = []) : q.Enters engine store [] [alone]
  | matched {operations : Ops} {scope : Cypher.Scope} {l : Live} {stream : Stream}
      (matching : q.matches_ ≠ [])
      (compiled : (matchClauses q.matches_).run .empty = .ok (operations, scope))
      (performed : performAll operations Live.onGraph = .ok l)
      (ran : (l.plan.run engine []).run ⟨store, []⟩ = (.ok stream, ⟨store, []⟩)) :
      q.Enters engine store scope.bindings stream

namespace Cypher

variable {b : Bindings} {q : Query} {scope : Scope} {operations : Ops} {l : Live} {engine : Engine}
  {store : Store} {parts : List Part} {before : Graph}

theorem matchClauses_bind {clauses : List MatchClause}
    (compiled : (matchClauses clauses).run .empty = .ok (operations, scope)) {name : String}
    (bound : (Dictionary.get? name scope.bindings).isSome) :
    name ∈ clauses.flatMap MatchClause.names := by
  by_contra fresh
  have nothing : Dictionary.get? name Scope.empty.bindings = none := rfl
  have unbound := (matchClauses_ignores fresh).unbound nothing
  rw [compiled] at unbound
  cases unbound with
  | ok same =>
      rw [same.2.2] at bound
      cases bound

theorem name_of_node {p : PathPattern} {node : NodePattern} (member : node ∈ p.nodes)
    {name : String} (named : name ∈ node.name) : name ∈ p.names := by
  have own : name ∈ node.names := List.mem_append_left _ (Option.mem_toList.mpr named)
  rw [PathPattern.names, List.mem_append]
  rcases List.mem_cons.mp member with rfl | later
  · exact .inl own
  · obtain ⟨link, linked, rfl⟩ := List.mem_map.mp later
    exact .inr (List.mem_flatMap_of_mem linked (List.mem_append_right _ own))

theorem name_of_relationship {p : PathPattern} {link : RelationshipPattern × NodePattern}
    (member : link ∈ p.chain) {name : String} (named : name ∈ link.1.name) : name ∈ p.names := by
  have own : name ∈ link.1.names := List.mem_append_left _ (Option.mem_toList.mpr named)
  exact List.mem_append_right _ (List.mem_flatMap_of_mem member (List.mem_append_left _ own))

theorem Follows.begin {t : Traverser} (knows : t.Knows b []) :
    Follows b before [] t ⟨t, .nothing⟩ :=
  ⟨⟨knows.binds, knows.plain, fun _ => (List.append_nil _).symm⟩, .nothing⟩

theorem Stocked.begin (reachable : store.graph.Reachable) (stream : Stream) :
    Stocked store.graph (stream.map (⟨·, .nothing⟩)) ⟨store, []⟩ := by
  refine ⟨rfl, ?_⟩
  have nothing {α : Type} : stream.flatMap (fun _ => ([] : List α)) = [] :=
    List.flatMap_eq_nil_iff.mpr fun _ _ => rfl
  simpa [List.flatMap_map, Made.nothing, nothing] using Graph.Grown.refl reachable

theorem Follows.rows {stream : Stream} {courses : List Course}
    (follow : List.Forall₂ (Follows b before parts) stream courses) :
    List.Forall₂ (MadeFor before · parts) ((courses.map (·.entered)).map (Traverser.valuation b))
      (courses.map (·.made)) := by
  induction follow with
  | nil => exact .nil
  | cons follows _ ih => exact .cons follows.makes ih

/-- A run of MATCH clauses that succeeds finds what knows the variables, and changes nothing. -/
theorem matched_run (fits : ∀ m ∈ q.matches_, m.Fits)
    (compiled : (matchClauses q.matches_).run .empty = .ok (operations, scope))
    (performed : performAll operations Live.onGraph = .ok l) {out : Stream} {world : World}
    (ran : (l.plan.run engine []).run ⟨store, []⟩ = (.ok out, world)) :
    world = ⟨store, []⟩ ∧ Known scope.bindings [] out := by
  obtain ⟨ready, _⟩ := Ready.start.matchClauses fits compiled performed
  have rooted : performAll operations (Live.starting true) = .ok l := performed
  have looks : OpsMade .looking operations :=
    matchClauses_made (fun m _ => .refl (fun e => ⟨rfl, e.literals_look⟩) m) _ _ compiled
  have kept := l.plan.run_keeps storeKept_permits engine (looks.uses rooted) [] ⟨store, []⟩
  obtain ⟨result, after, _, plain, within⟩ := ready.runs.plan engine [] rfl store
  rw [← Plan.settled_eq ready.settled, ran] at plain
  cases plain
  rw [ran] at kept
  cases kept
  exact ⟨rfl, within⟩

theorem Creating.begin (fits : ∀ m ∈ q.matches_, m.Fits) (reachable : store.graph.Reachable)
    (compiled : (matchClauses q.matches_).run .empty = .ok (operations, scope))
    (performed : performAll operations Live.onGraph = .ok l)
    (unreserved : ∀ name, (Dictionary.get? name scope.bindings).isSome →
      ∀ n, name ≠ unnamedLabel n) :
    Creating scope.bindings engine store (q.Enters engine store scope.bindings) scope [] [] l := by
  obtain ⟨ready, starts⟩ := Ready.start.matchClauses fits compiled performed
  have plan := Plan.settled_eq ready.settled
  refine ⟨⟨.nil, nofun, nofun, fun _ _ => rfl, unreserved⟩, nofun, fun started => ?_,
    fun blank => ?_⟩
  · have matching : q.matches_ ≠ [] := by
      intro unmatched
      rw [unmatched] at compiled
      cases compiled
      cases started
    refine ⟨ready.settled, ready.begun started, fun {out world} ran => ?_⟩
    have ran : (l.plan.run engine []).run ⟨store, []⟩ = (.ok out, world) := plan ▸ ran
    obtain ⟨rfl, known⟩ := matched_run fits compiled performed ran
    refine ⟨out.map (⟨·, .nothing⟩), ?_, ?_, .begin reachable out⟩
    · rw [List.forall₂_map_right_iff, List.forall₂_same]
      exact fun t member => .begin (known t member)
    · have entered : (out.map fun t => (⟨t, .nothing⟩ : Course)).map (·.entered) = out := by
        rw [List.map_map]
        exact List.map_id out
      rw [entered]
      exact .matched matching compiled performed ran
  · have unmatched : q.matches_ = [] := by
      by_contra matching
      rw [starts (.inr matching)] at blank
      cases blank
    obtain ⟨empty, unbound, -⟩ := ready.blank blank
    refine ⟨unbound, rfl, ?_, ready.bound, ?_⟩
    · rw [unbound]
      exact .alone unmatched
    · rw [plan, empty]
      rfl

/-- What reaches the RETURN clause has been through the CREATE clause, and nothing else after the
MATCH clauses. -/
theorem reachOps_arrives (fits : ∀ m ∈ q.matches_, m.Fits) (creates : q.create ≠ [])
    (noSet : q.set = []) (noDelete : q.delete = none)
    (plain : ∀ name ∈ q.patternNames, isPlainName name = true) (reachable : store.graph.Reachable)
    (compiled : (reachOps q).run .empty = .ok (operations, scope))
    (performed : performAll operations Live.onGraph = .ok l) :
    ∃ matched : Scope, Arrives engine store (q.Enters engine store matched.bindings)
      (Follows matched.bindings store.graph
        (createdParts matched.bindings.keys matched.unnamed q.create)) l := by
  obtain ⟨found, matched, created, written, started, changed, matching, creating, starting, changes,
    rfl⟩ := reachOps_parts compiled
  rw [changeOps_nothing noSet noDelete] at changes
  cases changes
  rw [List.append_nil] at performed
  obtain ⟨middle, performed, starts⟩ := performed_append.mp performed
  obtain ⟨searched, finds, writes⟩ := performed_append.mp performed
  have unreserved {name : String} (member : name ∈ q.create.flatMap PathPattern.names) :
      ∀ n, name ≠ unnamedLabel n :=
    unnamedLabel_of_plain (plain name (List.mem_append_right _ member))
  have begins : Creating _ engine store (q.Enters engine store matched.bindings) matched [] []
      searched := .begin fits reachable matching finds fun name bound =>
    unnamedLabel_of_plain (plain name (List.mem_append_left _ (matchClauses_bind matching bound)))
  obtain ⟨arrives, still⟩ := begins.createPaths creates reachable
    (fun p listed node member name named =>
      unreserved (List.mem_flatMap_of_mem listed (name_of_node member named)))
    (fun p listed link member name named =>
      unreserved (List.mem_flatMap_of_mem listed (name_of_relationship member named)))
    creating writes
  rw [startOps_run, if_pos still] at starting
  cases starting
  cases starts
  exact ⟨matched, arrives⟩

/-- The RETURN clause, or what stands for it, leaves the store as it was. -/
theorem returnedOps_keep {r : Option ReturnClause} {returned : Ops} {stages : List Stage}
    (compiled : returnedOps b r = .ok returned) (builds : Builds returned stages) {stream out : Stream}
    {world last : World} (ran : (runStages engine stages stream).run world = (.ok out, last)) :
    last.store = world.store := by
  have looks : OpsMade .looking returned := returnedOps_made (fun clause _ =>
    returnMade_of_paired (.refl (fun e => ⟨rfl, e.literals_look⟩) clause)) _ compiled
  have kept := runStages_keep storeKept_permits engine stages (looks.builds builds) stream world
  rwa [ran] at kept

end Cypher

/-- CREATE creates exactly its patterns, once for each row. -/
theorem create_makes_its_patterns_once_per_row (text : String) (parameters : Properties)
    {s : Statement} {l : Live} (parsed : Statement.parse text parameters = .ok s)
    (creates : s.query.create ≠ []) (noSet : s.query.set = []) (noDelete : s.query.delete = none)
    (plain : ∀ name ∈ s.query.patternNames, isPlainName name = true)
    (built : s.query.buildOn Live.onGraph = .ok l) {engine : Engine} {store after : Store}
    (reachable : store.graph.Reachable) {found : List Value}
    (ran : l.execute engine store = (.ok found, after)) :
    ∃ b stream, s.query.Enters engine store b stream ∧
      CreatedPerRow b.keys s.query.create (stream.map (Traverser.valuation b)) store.graph
        after.graph := by
  have fits := Statement.parse_fits parsed
  obtain ⟨result, last, _, run, _, executed⟩ := built_executes fits built engine store
  rw [executed] at ran
  obtain ⟨done, same⟩ := Prod.mk.inj ran
  obtain ⟨out, rfl, rfl⟩ := map_eq_ok.mp done
  subst same
  obtain ⟨operations, returned, scope, reached, compiled, returns, first, second⟩ :=
    built_parts built
  obtain ⟨matched, arrives⟩ :=
    reachOps_arrives fits creates noSet noDelete plain reachable compiled first
  obtain ⟨stages, builds, _⟩ := returnedOps_passes returns second
  obtain ⟨program, ends⟩ := builds reached arrives.settled
  cases Except.ok.inj (second.symm.trans ends)
  change (runStages engine (reached.plan.stages ++ stages) []).run _ = _ at run
  rw [runStages_append] at run
  obtain ⟨stream, middle, create, return_⟩ := runs_bind.mp run
  obtain ⟨courses, follow, enters, stocked⟩ := arrives.runs create
  refine ⟨matched.bindings, courses.map (·.entered), enters, matched.unnamed,
    courses.map (·.made), Follows.rows follow, ?_⟩
  have kept : last = middle.store := returnedOps_keep returns builds return_
  rw [kept, List.flatMap_map, List.flatMap_map]
  exact stocked.grown

/-- The text that stands for null is no property value, and a null that is computed takes away what
an earlier entry of the same key has written. -/
theorem null_text_is_not_written :
    Value.string "  cypher.null" ≠ .null ∧
    ∀ text ∈ [r#"CREATE (n {x: "  cypher.null"})"#, "CREATE (n {x: 1, x: 1 + null})"],
      ((Statement.parse text []).toOption.bind fun s =>
          (s.query.buildOn Live.onGraph).toOption.map fun l =>
            (l.execute (.standard 10) ⟨.empty, .zero⟩).2.graph.vertices.map Vertex.properties) =
        some [[]] := by
  decide +kernel

/-- A variable of MATCH, one that two paths share, a relationship that points to the left, and two
anonymous nodes. -/
def newNeighbours : String :=
  "MATCH (a) CREATE (a)<-[:m {w: id(a)}]-(c:q {x: null})-[:m]->(), (c)-[:m]->()"

theorem neighbours_are_made_for_both_vertices : ∃ s l found after b stream,
    Statement.parse newNeighbours [] = .ok s ∧ s.query.create ≠ [] ∧ s.query.set = [] ∧
      s.query.delete = none ∧ (∀ name ∈ s.query.patternNames, isPlainName name = true) ∧
      s.query.buildOn Live.onGraph = .ok l ∧ Graph.oneEdge.Reachable ∧
      l.execute (.standard 10) ⟨.oneEdge, .zero⟩ = (.ok found, after) ∧
      s.query.Enters (.standard 10) ⟨.oneEdge, .zero⟩ b stream ∧
      CreatedPerRow b.keys s.query.create (stream.map (Traverser.valuation b)) .oneEdge
        after.graph ∧ after.graph.vertices.length = 8 ∧ after.graph.edges.length = 7 := by
  have accepted : ((Statement.parse newNeighbours []).toOption.any fun s =>
      !s.query.create.isEmpty && s.query.set.isEmpty && s.query.delete.isNone
        && s.query.patternNames.all isPlainName
        && ((s.query.buildOn Live.onGraph).toOption.any fun l =>
          let outcome := l.execute (.standard 10) ⟨.oneEdge, .zero⟩
          outcome.1.isOk && outcome.2.graph.vertices.length == 8
            && outcome.2.graph.edges.length == 7)) = true := by decide +kernel
  cases parsed : Statement.parse newNeighbours [] with
  | error fault => simp [parsed, Except.toOption] at accepted
  | ok s =>
      cases built : s.query.buildOn Live.onGraph with
      | error fault => simp [parsed, built, Except.toOption] at accepted
      | ok l =>
          cases ran : l.execute (.standard 10) ⟨.oneEdge, .zero⟩ with
          | mk result after =>
              simp only [parsed, built, ran, Except.toOption, Option.any_some, Bool.and_eq_true,
                Bool.not_eq_true', List.isEmpty_eq_false_iff, List.isEmpty_iff,
                Option.isNone_iff_eq_none, List.all_eq_true, beq_iff_eq] at accepted
              obtain ⟨⟨⟨⟨creates, noSet⟩, noDelete⟩, plain⟩, ⟨succeeds, vertices⟩, edges⟩ := accepted
              cases result with
              | error fault => cases succeeds
              | ok found =>
                  obtain ⟨b, stream, enters, created⟩ := create_makes_its_patterns_once_per_row
                    newNeighbours [] parsed creates noSet noDelete plain built
                    Graph.oneEdge_reachable ran
                  exact ⟨s, l, found, after, b, stream, rfl, creates, noSet, noDelete, plain, built,
                    Graph.oneEdge_reachable, ran, enters, created, vertices, edges⟩

end PropertyGraph
