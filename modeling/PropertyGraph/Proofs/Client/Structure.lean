import PropertyGraph.Proofs.Client.Portable
import PropertyGraph.Proofs.Cypher.QuerySoundness
import PropertyGraph.Proofs.Cypher.Reading

/-!
Queries have traversals that are well formed: no run of them fails for its structure, and none loses
a traverser because a name stands for nothing. What is left beside ordinary faults is a sort that
gives up, and it does so only on keys whose order is not total.
-/

namespace PropertyGraph

open Cypher Exec

theorem Cypher.Returned.rows {r : Option ReturnClause} {stream : Stream}
    (returned : Returned r stream) : ∃ found, Normalize.rows (objects stream) = .ok found := by
  cases r with
  | none =>
      cases (returned : stream = [])
      exact ⟨[], rfl⟩
  | some r =>
      obtain ⟨found, made, _⟩ := Normalize.rows_ok returned.1 returned.2
      exact ⟨found, made⟩

/-- How a query that is built ends: in what is to be returned, in an ordinary fault, or in a sort that
gives up. -/
theorem Cypher.built_executes {q : Query} {l : Live} (fits : ∀ m ∈ q.matches_, m.Fits)
    (built : q.buildOn Live.onGraph = .ok l) (engine : Engine) (store : Store) :
    ∃ result after, (l.plan.runStrictly engine []).run ⟨store, []⟩ = (result, ⟨after, []⟩) ∧
      (l.plan.run engine []).run ⟨store, []⟩ = (result, ⟨after, []⟩) ∧
      Within (Returned q.return_) result ∧
      l.execute engine store = (objects <$> result, after) := by
  obtain ⟨bound, carries⟩ := built_carries fits built
  obtain ⟨result, after, strict, plain, within⟩ := carries engine [] rfl store
  refine ⟨result, after, strict, plain, within, ?_⟩
  rw [Live.execute, if_pos bound, Plan.execute, plain]
  cases result <;> rfl

/-- The traversal of a query, live or compiled from the program of the query, fails only for what
values and elements are there, for the limit of loops, and for a sort of keys whose order is not
total; and no selection in it loses a traverser. -/
theorem queries_run_without_structural_faults (text : String) (parameters : Properties)
    {s : Statement} {l : Live} (parsed : Statement.parse text parameters = .ok s)
    (built : s.query.buildOn Live.onGraph = .ok l) :
    (∃ p, s.query.program = .ok p ∧ Live.ofProgram? true p = .ok l) ∧
      (∀ (engine : Engine) (store : Store),
        (l.plan.runStrictly engine []).run ⟨store, []⟩ = (l.plan.run engine []).run ⟨store, []⟩ ∧
        ∀ fault after, l.execute engine store = (.error fault, after) →
          fault.isOrdinary = true ∨ fault.IsDisorder) ∧
      ∀ (client : Client) (error : Error), (client.run l).1 = .failed error →
        ∃ fault, error = .execution fault ∧ (fault.isOrdinary = true ∨ fault.IsDisorder) := by
  have fits := Statement.parse_fits parsed
  refine ⟨?_, fun engine store => ?_, fun client error failed => ?_⟩
  · have alike := s.query.buildOn_faithful
    rw [built] at alike
    generalize recording : s.query.buildOn Recorder.rootedAtGraph = recorded at alike
    cases alike with
    | @ok recorder _ same =>
        have program : s.query.program = .ok recorder.program := by
          rw [Query.program, recording]
          rfl
        obtain ⟨live, held, compiled⟩ := Query.build_live program
        cases Except.ok.inj (built.symm.trans held)
        exact ⟨recorder.program, program, compiled⟩
  · obtain ⟨result, after, strict, plain, within, executed⟩ :=
      built_executes fits built engine store
    refine ⟨strict.trans plain.symm, fun fault other failed => ?_⟩
    rw [executed] at failed
    cases result with
    | ok stream => cases failed
    | error ordinary =>
        cases failed
        exact within
  · obtain ⟨result, after, _, _, within, executed⟩ :=
      built_executes fits built client.engine client.store
    simp only [Client.run, executed] at failed
    cases result with
    | ok stream =>
        obtain ⟨found, made⟩ := Returned.rows within
        simp only [map_ok, Except.bind, made] at failed
        cases failed
    | error fault =>
        cases failed
        exact ⟨fault, rfl, within⟩

/-- Loops, new relationships and groups are all built from one text. -/
def groupedPaths : String :=
  "MATCH (a)-[e:knows*0..2]->(b) CREATE (b)-[:met]->(a) RETURN b.name, count(*) ORDER BY b.name"

theorem grouped_paths_run_without_structural_faults : ∃ s l,
    Statement.parse groupedPaths [] = .ok s ∧ s.query.buildOn Live.onGraph = .ok l ∧
      ∀ (client : Client) (error : Error), (client.run l).1 = .failed error →
        ∃ fault, error = .execution fault ∧ (fault.isOrdinary = true ∨ fault.IsDisorder) := by
  have accepted : ((Statement.parse groupedPaths []).toOption.any fun s =>
      (s.query.buildOn Live.onGraph).isOk) = true := by decide +kernel
  cases parsed : Statement.parse groupedPaths [] with
  | error fault => simp [parsed, Except.toOption] at accepted
  | ok s =>
      cases built : s.query.buildOn Live.onGraph with
      | error fault =>
          simp [parsed, built, Except.toOption, Except.isOk, Except.toBool] at accepted
      | ok l =>
          exact ⟨s, l, rfl, built,
            (queries_run_without_structural_faults groupedPaths [] parsed built).2.2⟩

/-- Two large integers that round to one floating-point number, which compares equal to both. -/
def roundedIntegers : List Value :=
  [.int 9007199254740993, .float (.ofInt 9007199254740992), .int 9007199254740993] ++
    List.replicate 18 (.int 9007199254740992)

/-- One vertex for each of the numbers. -/
def onRoundedIntegers : Client :=
  ⟨⟨roundedIntegers.foldl (fun g v => (g.addVertex "p" [("k", v)]).2) .empty, .zero⟩,
    .standard 1000, .groovy⟩

/-- Nothing is wrong with the values, the elements or the loops, but the sort gives up. -/
theorem sort_of_rounded_integers_fails : ∃ error,
    (onRoundedIntegers.submit "MATCH (n) RETURN 1 AS one ORDER BY n.k" []).1 = .failed error ∧
      error.kind = .internal ∧
      ¬∃ fault, error = .execution fault ∧ fault.isOrdinary = true := by
  have failed : (match (onRoundedIntegers.submit "MATCH (n) RETURN 1 AS one ORDER BY n.k" []).1 with
      | .failed (.execution (.disordered _ _)) => true
      | _ => false) = true := by decide +kernel
  split at failed
  · rename_i orders keys ended
    exact ⟨_, ended, rfl, fun ⟨fault, same, ordinary⟩ => by cases same; cases ordinary⟩
  · cases failed

end PropertyGraph
