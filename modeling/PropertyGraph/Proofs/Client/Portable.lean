import PropertyGraph.Client.Basic
import PropertyGraph.Proofs.Builder.Compiled
import PropertyGraph.Proofs.Run.Metrics

/-!
Programs are portable: a program that was recorded compiles to the plan that the live builder holds
after the same calls, so running the program of a query comes to what the query comes to.
-/

namespace PropertyGraph

namespace Client

theorem run_same (left right : Client) (l : Live) (engines : left.engine = right.engine)
    (same : left.store.graph = right.store.graph) :
    (left.run l).1 = (right.run l).1 ∧
      (left.run l).2.store.graph = (right.run l).2.store.graph := by
  have executed : (l.execute left.engine left.store).1 =
        (l.execute right.engine right.store).1 ∧
      (l.execute left.engine left.store).2.graph =
        (l.execute right.engine right.store).2.graph := by
    rw [engines]
    unfold Live.execute
    split
    · exact l.plan.execute_unmetered _ _ _ same
    · exact ⟨rfl, same⟩
  obtain ⟨sameResult, sameGraph⟩ := executed
  simp only [run]
  generalize l.execute left.engine left.store = seen at sameResult sameGraph
  generalize l.execute right.engine right.store = other at sameResult sameGraph
  obtain ⟨result, leftAfter⟩ := seen
  obtain ⟨_, rightAfter⟩ := other
  cases sameResult
  dsimp only
  split
  · exact ⟨rfl, sameGraph⟩
  · exact ⟨rfl, sameGraph⟩

end Client

namespace Query

/-- A query is refused on both backends, or builds its program and the plan of it. -/
theorem buildOn_faithful (q : Query) :
    Alike (Faithful true) (q.buildOn Recorder.rootedAtGraph) (q.buildOn Live.onGraph) := by
  unfold buildOn
  cases q.script with
  | error fault => exact .error _
  | ok script =>
      have alike : Alike (Faithful true) (script.perform Recorder.rootedAtGraph)
          (script.perform Live.onGraph) := script.perform_faithful (Faithful.starting true)
      dsimp only
      generalize script.perform Recorder.rootedAtGraph = recording at alike
      generalize script.perform Live.onGraph = building at alike
      cases alike with
      | ok same => exact .ok same
      | error fault => exact .error _

theorem build_live {q : Query} {p : Program} (recorded : q.program = .ok p) :
    ∃ l, q.buildOn Live.onGraph = .ok l ∧ Live.ofProgram? true p = .ok l := by
  have alike := q.buildOn_faithful
  unfold program at recorded
  generalize q.buildOn Recorder.rootedAtGraph = recording at alike recorded
  generalize q.buildOn Live.onGraph = building at alike
  cases alike with
  | error fault => cases recorded
  | @ok recorder live same =>
      cases recorded
      refine ⟨live, rfl, ?_⟩
      have compiled : Plan.ofProgram? live.bound live.program = .ok live.plan := same.compiled
      rw [same.simulates.program, ← same.bound, Live.ofProgram?, compiled]
      rfl

theorem program_of_built {q : Query} {l : Live} (built : q.buildOn Live.onGraph = .ok l) :
    ∃ p, q.program = .ok p ∧ Live.ofProgram? true p = .ok l := by
  have alike := q.buildOn_faithful
  rw [built] at alike
  generalize recording : q.buildOn Recorder.rootedAtGraph = recorded at alike
  cases alike with
  | @ok recorder _ same =>
      have program : q.program = .ok recorder.program := by
        rw [Query.program, recording]
        rfl
      obtain ⟨live, held, compiled⟩ := build_live program
      cases Except.ok.inj (built.symm.trans held)
      exact ⟨recorder.program, program, compiled⟩

end Query

end PropertyGraph
