import PropertyGraph.Proofs.Builder.Equivalence
import PropertyGraph.Proofs.Cypher.ClauseNames
import PropertyGraph.Proofs.Cypher.Courses
import PropertyGraph.Proofs.Cypher.PropertyTests

/-!
Filters that may be taken early. Where each traverser moves on to exactly one other, a filter before
the moves and a filter behind them give the same, if they decide alike on each traverser and on what
it becomes.
-/

namespace PropertyGraph

open Exec Plan Script

namespace Exec

variable {world : World}

/-- Two tests that agree on each traverser and on what it becomes. -/
theorem keep_map (test test' : Traverser → Exec Bool) (move : Traverser → Traverser)
    {stream : Stream} (alike : ∀ t ∈ stream, ∃ result, Gives world (test t) result ∧
    Gives world (test' (move t)) result) :
    ∃ result, Gives world (keep test stream) result ∧
      Gives world (keep test' (stream.map move)) (List.map move <$> result) ∧
        ∀ kept, result = .ok kept → kept ⊆ stream := by
  induction stream with
  | nil => exact ⟨.ok [], rfl, rfl, fun kept same => Except.ok.inj same ▸ List.Subset.refl _⟩
  | cons t rest ih =>
      obtain ⟨result, first, second⟩ := alike t List.mem_cons_self
      obtain ⟨others, firstRest, secondRest, within⟩ :=
        ih fun u later => alike u (List.mem_cons_of_mem _ later)
      have one {test : Traverser → Exec Bool} {u : Traverser} {rest : Stream}
          {more : Except ExecutionFault Stream} (gives : Gives world (test u) result)
          (givesRest : Gives world (keep test rest) more) : Gives world (keep test (u :: rest))
            (result >>= fun passed => ((if passed then [u] else []) ++ ·) <$> more) := by
        rw [keep, forEach, bind_assoc]
        refine gives.bind fun passed _ => ?_
        rw [pure_bind, map_eq_pure_bind]
        exact Gives.bind (m := keep test rest) givesRest fun _ _ => .pure _
      refine ⟨_, one first firstRest, ?_, ?_⟩
      · have moved := one second secondRest
        rw [List.map_cons]
        refine Eq.trans moved ?_
        congr 1
        cases result with
        | error fault => rfl
        | ok passed => cases others <;> cases passed <;> rfl
      · intro kept same
        obtain ⟨passed, rfl, same⟩ := bind_eq_ok.mp same
        obtain ⟨more, rfl, rfl⟩ := map_eq_ok.mp same
        have later := List.Subset.trans (within more rfl) (List.subset_cons_self t rest)
        cases passed with
        | true => exact List.cons_subset_cons t (within more rfl)
        | false => exact later

theorem AgreeIn.of_run_eq {view : View} {m n : Exec Stream} (same : m.run world = n.run world) :
    AgreeIn world (Stream.Alike view) m n := by
  rw [AgreeIn, same]
  refine ⟨?_, rfl⟩
  cases (n.run world).1 with
  | ok stream => exact .ok (.refl stream)
  | error fault => exact .error fault

end Exec

namespace Cypher

variable {g : Graph} {Here : Traverser → Prop} {related : World → Traverser → Traverser → Prop}
  {op op' : Op Script} {operations later : Ops} {moves : List Stage} {l : Live}

/-- A builder that holds stages. On one graph, their runs that succeed change nothing and find
traversers of which something holds. -/
structure Finding (g : Graph) (Here : Traverser → Prop) (l : Live) : Prop where
  settled : l.plan.pending = []
  begun : l.plan.stages ≠ []
  runs : ∀ {engine store out after}, store.graph = g →
    (runStages engine l.plan.stages []).run ⟨store, []⟩ = (.ok out, after) →
      after = ⟨store, []⟩ ∧ ∀ t ∈ out, Here t

/-- Each traverser of which something holds moves on to exactly one other, on one graph. -/
def MovesEach (g : Graph) (Here : Traverser → Prop) (moves : List Stage)
    (move : Traverser → Traverser) : Prop :=
  ∀ engine store, store.graph = g → ∀ stream : Stream, (∀ t ∈ stream, Here t) →
    Gives ⟨store, []⟩ (runStages engine moves stream) (.ok (stream.map move))

namespace MovesEach

variable {There : Traverser → Prop} {first second : List Stage} {move move' : Traverser → Traverser}

theorem nil : MovesEach g Here [] id := by
  intro engine store here stream stands
  rw [List.map_id]
  exact .pure stream

theorem append (moved : MovesEach g Here first move) (arrive : ∀ t, Here t → There (move t))
    (onward : MovesEach g There second move') :
    MovesEach g Here (first ++ second) fun t => move' (move t) := by
  intro engine store here stream stands
  rw [runStages_append]
  refine (moved engine store here stream stands).bind_ok ?_
  have further := onward engine store here (stream.map move) fun u member => by
    obtain ⟨t, listed, rfl⟩ := List.mem_map.mp member
    exact arrive t (stands t listed)
  rwa [List.map_map] at further

theorem as_ (name : String) :
    MovesEach g Here [.bare .as_ [.label name]] fun t => t.addLabel name :=
  fun _ _ _ _ _ => Gives.pure _

theorem of_expands (expands : ∀ engine store, store.graph = g →
    Expands engine ⟨store, []⟩ (fun t u => t = u ∧ Here u) first (fun u => [move u]) Eq) :
    MovesEach g Here first move := by
  intro engine store here stream stands
  obtain ⟨out, gives, reached⟩ := expands engine store here stream stream
    (List.forall₂_same.mpr fun t member => ⟨rfl, stands t member⟩)
  rw [List.forall₂_eq_eq_eq, ← List.map_eq_flatMap] at reached
  exact reached ▸ gives

end MovesEach

/-- A builder goes on with stages that find something from wherever it has come to. -/
theorem Finding.extend (finding : Finding g Here l) (builds : Builds operations moves)
    {There : Traverser → Prop} (leads : ∀ engine store, store.graph = g → ∀ stream : Stream,
      (∀ t ∈ stream, Here t) → ∃ out, Gives ⟨store, []⟩ (runStages engine moves stream) (.ok out) ∧
        ∀ t ∈ out, There t) :
    ∃ l', performAll operations l = .ok l' ∧ Finding g There l' := by
  obtain ⟨program, performed⟩ := builds l finding.settled
  refine ⟨_, performed, rfl, List.append_ne_nil_of_left_ne_nil finding.begun moves, ?_⟩
  intro engine store out after here ran
  change (runStages engine (l.plan.stages ++ moves) []).run _ = _ at ran
  rw [runStages_append] at ran
  obtain ⟨stream, middle, found, ran⟩ := runs_bind.mp ran
  obtain ⟨rfl, stands⟩ := finding.runs here found
  obtain ⟨out', gives, arrive⟩ := leads engine store here stream stands
  cases gives.symm.trans ran
  exact ⟨rfl, arrive⟩

/-- A filter may be taken before the moves that it stands behind. -/
theorem Finding.filters_early (finding : Finding g Here l) (alike : SiftAlike related op op')
    (builds : Builds operations moves) {move : Traverser → Traverser}
    (moved : MovesEach g Here moves move)
    (relates : ∀ store t, store.graph = g → Here t → related ⟨store, []⟩ t (move t))
    (follows : Follow .whole later) :
    Alike (Live.EquivalentOn g) (performAll (op :: (operations ++ later)) l)
      (performAll (operations ++ op' :: later) l) := by
  rw [← List.singleton_append, ← List.singleton_append (l := later)]
  rcases alike with ⟨fault, refused, refusedToo⟩ | ⟨starts, starts', c, c', sifts, siftsToo, agree⟩
  · obtain ⟨program, performed⟩ := builds l finding.settled
    rw [performAll_append, performAll_append, refused l, performed, ok_bind, performAll_append,
      refusedToo]
    exact .error fault
  · obtain ⟨filter, buildsFilter, keeps⟩ := sifts
    obtain ⟨condition, buildsCondition, keepsToo⟩ := siftsToo
    obtain ⟨program, early⟩ := (buildsFilter.append builds) l finding.settled
    obtain ⟨program', late⟩ := (builds.append buildsCondition) l finding.settled
    have standing (stages : List Stage) : l.plan.stages ++ stages ≠ [] :=
      List.append_ne_nil_of_left_ne_nil finding.begun stages
    rw [← List.append_assoc, ← List.append_assoc, performAll_append, early, performAll_append, late,
      ok_bind, ok_bind]
    have opening : Op.Opening false later := follows.2
    have waiting : View.whole.AdmitsModulators [] := trivial
    refine (performAll_same_tail
      (l := ⟨l.bound, program, .mk (l.plan.stages ++ ([filter] ++ moves)) []⟩)
      (m := ⟨l.bound, program', .mk (l.plan.stages ++ (moves ++ [condition])) []⟩)
      (standing _) (standing _) rfl rfl rfl waiting opening nofun follows.1).imp ?_
    intro _ _ same engine store here
    refine same.execute_eq (.of_run_eq ?_)
    obtain ⟨test, kept, tested⟩ := keeps engine
    obtain ⟨test', keptToo, testedToo⟩ := keepsToo engine
    rw [runStages_append, runStages_append, run_bind, run_bind]
    cases found : (runStages engine l.plan.stages []).run ⟨store, []⟩ with
    | mk result after =>
        cases result with
        | error fault => rfl
        | ok stream =>
            obtain ⟨rfl, stands⟩ := finding.runs here found
            have alike (t : Traverser) (member : t ∈ stream) : ∃ result,
                Gives ⟨store, []⟩ (test t) result ∧ Gives ⟨store, []⟩ (test' (move t)) result := by
              obtain ⟨may, mayToo, same⟩ := agree _ _ _ (relates store t here (stands t member))
              exact ⟨_, tested _ t may, same ▸ testedToo _ _ mayToo⟩
            obtain ⟨result, first, second, within⟩ := keep_map test test' move alike
            have behind := (moved engine store here stream stands).bind_ok second
            dsimp only
            rw [runStages_append, runStages_append, runStages_one, kept]
            have last : runStages engine [condition] = keep test' := by
              funext stream
              rw [runStages_one, keptToo]
            rw [last]
            refine Eq.trans ?_ behind.symm
            cases result with
            | error fault => exact first.bind_error
            | ok passed =>
                exact first.bind_ok (moved engine store here passed fun t member =>
                  stands t (within passed rfl member))

end Cypher

end PropertyGraph
