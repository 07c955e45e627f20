import PropertyGraph.Proofs.Cypher.BoundStart
import PropertyGraph.Proofs.Cypher.InlineProperty
import PropertyGraph.Proofs.Cypher.Reading

/-!
Two ways to ask for a property. A pattern with a property and a pattern with a condition behind it
find the same, on graphs where no property is unknown.
-/

namespace PropertyGraph

open Cypher Script Scripting

/-- The query behind other MATCH clauses. -/
def Query.matching (rest : Query) (clauses : List MatchClause) : Query :=
  { rest with matches_ := clauses }

namespace Cypher

variable {g : Graph} {place : PropertyPlace} {before : List MatchClause} {e : Expression}

theorem queries_ask_alike (key : String) (fits : ∀ m ∈ before, m.Fits) (consistent : g.Consistent)
    (stores : g.StoresNoUnknown) (names : ∀ name ∈ e.names, name ∈ place.boundBefore before)
    (fresh : place.EndsFresh before) {rest : Query} (noCreate : rest.create = []) :
    Alike (fun left right => Alike (Live.EquivalentOn g) (performAll left.1 Live.onGraph)
      (performAll right.1 Live.onGraph))
        ((queryOps (rest.matching (before ++ [place.inline key e]))).run .empty)
        ((queryOps (rest.matching (before ++ [place.compared key e]))).run .empty) := by
  have run (m : MatchClause) : (queryOps (rest.matching (before ++ [m]))).run .empty =
      (matchClauses before).run .empty >>= fun found =>
        (matchClause m).run found.2 >>= fun asked =>
          (laterOps rest).run asked.2 >>= fun later =>
            .ok (found.1 ++ (asked.1 ++ later.1), later.2) := by
    have same : laterOps (rest.matching (before ++ [m])) = laterOps rest := rfl
    rw [queryOps_eq, same, Query.matching, matchClauses_append, matchClauses_one]
    simp only [StateT.run_bind, bind_assoc, StateT.run_pure, pure_bind, List.append_assoc]
    rfl
  rw [run, run]
  cases compiled : (matchClauses before).run .empty with
  | error fault => exact .error fault
  | ok reached =>
      obtain ⟨found, s⟩ := reached
      rw [ok_bind, ok_bind]
      refine Alike.bind (place_alike fits compiled consistent stores names fresh)
        fun left right alike => ?_
      obtain ⟨same, behind⟩ := alike
      rw [same]
      cases continued : (laterOps rest).run right.2 with
      | error fault => exact .error fault
      | ok later =>
          have reads (name : String) : View.whole.reads name := trivial
          exact .ok (behind later.1 (laterOps_follow reads noCreate continued))

end Cypher

/-- A property in the pattern of a node or of a relationship asks for the same as an equation in the
condition of the clause, if the value depends on names that are bound before, and no property in the
graph is null or the text that stands for it. The same rows are found in the same order, or both
queries are rejected or fail for the same reason. -/
theorem inline_property_asks_equality (client : Client) {text text' : String}
    {parameters : Properties} {place : PropertyPlace} {before : List MatchClause} {key : String}
    {e : Expression} {rest : Query} (noCreate : rest.create = [])
    (parsed : Statement.parse text parameters =
      .ok ⟨false, rest.matching (before ++ [place.inline key e])⟩)
    (parsedToo : Statement.parse text' parameters =
      .ok ⟨false, rest.matching (before ++ [place.compared key e])⟩)
    (names : ∀ name ∈ e.names, name ∈ place.boundBefore before) (fresh : place.EndsFresh before)
    (reachable : client.store.graph.Reachable) (stores : client.store.graph.StoresNoUnknown) :
    client.submit text parameters = client.submit text' parameters := by
  have fits : ∀ m ∈ before, m.Fits := fun m member =>
    Statement.parse_fits parsed m (List.mem_append_left _ member)
  have alike := Query.buildOn_alike
    (queries_ask_alike key fits reachable.consistent stores names fresh noCreate)
  rw [Client.submit, Client.submit, parsed, parsedToo]
  exact client.submitStatement_eqOn alike

/-- Two vertices, the first with a number, and an edge to the second with that number. -/
def Graph.numberedEdge : Graph :=
  let vertices := (((empty.addVertex "p" [("n", .int 7)]).2).addVertex "p" []).2
  match vertices.addEdge "k" ⟨1⟩ ⟨2⟩ [("w", .int 7)] with
  | .ok (_, g) => g
  | .error _ => vertices

theorem Graph.numberedEdge_reachable : Graph.numberedEdge.Reachable := by
  have vertices := Reachable.addVertex "p" [] (Reachable.addVertex "p" [("n", .int 7)] .empty)
  have added : (((Graph.empty.addVertex "p" [("n", .int 7)]).2).addVertex "p" []).2.addEdge "k" ⟨1⟩
      ⟨2⟩ [("w", .int 7)] = .ok (⟨1⟩, numberedEdge) := rfl
  exact vertices.addEdge added

/-- The number of an edge from a vertex, asked for in the pattern. -/
def askedInside : String := "MATCH (a) MATCH (a)-[r {w: a.n}]->(b) RETURN id(b)"

/-- The same, asked for in the condition. -/
def askedBehind : String := "MATCH (a) MATCH (a)-[r]->(b) WHERE r.w = a.n RETURN id(b)"

/-- `(a)` -/
def foundFirst : List MatchClause := [⟨[⟨.named "a", []⟩], none⟩]

/-- `(a)-[r]->(b)` -/
def PropertyPlace.fromFirst : PropertyPlace :=
  .relationship (.named "a") "r" [] .outgoing (some "b")

/-- `RETURN id(b)` -/
def Query.returnsEnd : Query := ⟨[], [], [], none, some (.ids ["b"])⟩

/-- Whether a statement finds the numbers in the pattern. -/
def Statement.asksInside : Statement → Bool
  | ⟨false, ⟨[⟨[⟨⟨some "a", [], []⟩, []⟩], none⟩,
      ⟨[⟨⟨some "a", [], []⟩, [(⟨some "r", [], [("w", .property "a" "n")], .outgoing, none⟩,
        ⟨some "b", [], []⟩)]⟩], none⟩], [], [], none,
      some ⟨false, [⟨.call "id" false [.reference "b"], none, "id(b)"⟩], [], none, none⟩⟩⟩ => true
  | _ => false

/-- Whether a statement finds the numbers in the condition. -/
def Statement.asksBehind : Statement → Bool
  | ⟨false, ⟨[⟨[⟨⟨some "a", [], []⟩, []⟩], none⟩,
      ⟨[⟨⟨some "a", [], []⟩, [(⟨some "r", [], [], .outgoing, none⟩, ⟨some "b", [], []⟩)]⟩],
        some (.binary (.property "r" "w") .eq (.property "a" "n"))⟩], [], [], none,
      some ⟨false, [⟨.call "id" false [.reference "b"], none, "id(b)"⟩], [], none, none⟩⟩⟩ => true
  | _ => false

theorem askedInside_parsed : Statement.parse askedInside [] = .ok ⟨false, Query.returnsEnd.matching
    (foundFirst ++ [PropertyPlace.fromFirst.inline "w" (.property "a" "n")])⟩ := by
  have accepted : (Statement.parse askedInside []).toOption.any Statement.asksInside = true := by
    decide +kernel
  cases parsed : Statement.parse askedInside [] with
  | error fault => simp [parsed, Except.toOption] at accepted
  | ok s =>
      simp only [parsed, Except.toOption, Option.any_some, Statement.asksInside] at accepted
      split at accepted
      · rfl
      · cases accepted

theorem askedBehind_parsed : Statement.parse askedBehind [] = .ok ⟨false, Query.returnsEnd.matching
    (foundFirst ++ [PropertyPlace.fromFirst.compared "w" (.property "a" "n")])⟩ := by
  have accepted : (Statement.parse askedBehind []).toOption.any Statement.asksBehind = true := by
    decide +kernel
  cases parsed : Statement.parse askedBehind [] with
  | error fault => simp [parsed, Except.toOption] at accepted
  | ok s =>
      simp only [parsed, Except.toOption, Option.any_some, Statement.asksBehind] at accepted
      split at accepted
      · rfl
      · cases accepted

theorem number_is_asked_for_either_way :
    Query.returnsEnd.create = [] ∧
      Statement.parse askedInside [] = .ok ⟨false, Query.returnsEnd.matching
        (foundFirst ++ [PropertyPlace.fromFirst.inline "w" (.property "a" "n")])⟩ ∧
      Statement.parse askedBehind [] = .ok ⟨false, Query.returnsEnd.matching
        (foundFirst ++ [PropertyPlace.fromFirst.compared "w" (.property "a" "n")])⟩ ∧
      (∀ name ∈ (Expression.property "a" "n").names,
        name ∈ PropertyPlace.fromFirst.boundBefore foundFirst) ∧
      PropertyPlace.fromFirst.EndsFresh foundFirst ∧
      Graph.numberedEdge.Reachable ∧ Graph.numberedEdge.StoresNoUnknown ∧
      (⟨⟨.numberedEdge, .zero⟩, .standard 10, .bytecode⟩ : Client).submit askedInside [] =
        (⟨⟨.numberedEdge, .zero⟩, .standard 10, .bytecode⟩ : Client).submit askedBehind [] ∧
      ((⟨⟨.numberedEdge, .zero⟩, .standard 10, .bytecode⟩ : Client).submit askedBehind []).1 =
        .rows [[("id(b)", .int 2)]] := by
  have names : ∀ name ∈ (Expression.property "a" "n").names,
      name ∈ PropertyPlace.fromFirst.boundBefore foundFirst := by
    decide
  have fresh : PropertyPlace.fromFirst.EndsFresh foundFirst := by
    rintro other ⟨⟩
    decide
  have stores : Graph.numberedEdge.StoresNoUnknown := ⟨by decide, by decide⟩
  have found : ((⟨⟨.numberedEdge, .zero⟩, .standard 10, .bytecode⟩ : Client).submit
      askedBehind []).1 = .rows [[("id(b)", .int 2)]] := by
    rw [Client.submit, askedBehind_parsed]
    rfl
  exact ⟨rfl, askedInside_parsed, askedBehind_parsed, names, fresh, Graph.numberedEdge_reachable,
    stores, inline_property_asks_equality _ rfl askedInside_parsed askedBehind_parsed names fresh
      Graph.numberedEdge_reachable stores, found⟩

end PropertyGraph
