import PropertyGraph.Proofs.Builder.Stages
import PropertyGraph.Proofs.Cypher.PathLoop
import PropertyGraph.Proofs.Cypher.Matching

/-!
A pattern of variable length finds each simple path once.
-/

namespace PropertyGraph

open Exec Script

namespace Cypher

open Scripting Application Application.Loop

/-- Asks whether there were enough rounds. -/
def countStages (least : Nat) : List Stage :=
  [.bare .loops [], .bare .is_ [.predicate (.gte (.ofNat least))]]

/-- The modulators of the loop along a path. -/
def loopModulators (range : PathLength) (program : Program) : List Modulator :=
  (if range.min = 0 then .mk (.mk .emit []) [] true
    else .mk (.mk .emit [.program program]) [.mk (countStages range.min) []] false) ::
  (range.max.map fun n => .mk (.mk .times [.literal (.ofNat n)]) [] false).toList

theorem countOps_build (least : Nat) :
    Builds [.append .loops [], .is_ (.gte (.ofNat least))] (countStages least) := by
  have counts : Builds [.append .loops []] [.bare .loops []] :=
    Builds.step .loops ⟨rfl, by decide⟩ rfl [] rfl
  exact counts.append (Builds.step .is_ ⟨rfl, by decide⟩ rfl [.predicate (.gte (.ofNat least))] rfl)

theorem performAll_times (most : Option Nat) (bound : Bool) (program : Program)
    (stages : List Stage) (arguments : List Argument) (children : List Plan)
    (modulators : List Modulator) : ∃ after,
    performAll (most.map .times).toList
      (⟨bound, program, .mk (stages ++ [.apply (.mk .repeat_ arguments) children modulators]) []⟩ :
        Live) =
      .ok ⟨bound, after, .mk (stages ++ [.apply (.mk .repeat_ arguments) children (modulators ++
        (most.map fun n => .mk (.mk .times [.literal (.ofNat n)]) [] false).toList)]) []⟩ := by
  cases most with
  | none => exact ⟨program, by simp [performAll]⟩
  | some n =>
      refine ⟨program ++ [.mk .times [.literal (.ofNat n)]], ?_⟩
      have added := Plan.add_modulator (.mk .times [.literal (.ofNat n)]) rfl [] stages
        (.mk .repeat_ arguments) rfl children modulators
      change Except.ok (⟨bound, program ++ [.mk .times [.literal (.ofNat n)]],
        Plan.add (.mk .times [.literal (.ofNat n)]) [] (.mk (stages ++ [_]) [])⟩ : Live) = _
      rw [added]
      rfl

section

variable {body : Ops} {walked : Program} {stages : List Stage}

theorem performAll_repeat
    (performed : performAll body Backend.floating = .ok (⟨false, walked, .mk stages []⟩ : Live))
    (bound : Bool) (program : Program) (before : List Stage) (pending : List Modulator) :
    performAll [.nested .repeat_ [.of body]] (⟨bound, program, .mk before pending⟩ : Live) =
      .ok ⟨bound, program ++ [.mk .repeat_ [.program walked]], .mk (before ++
        [.apply (.mk .repeat_ [.program walked]) [.mk stages []] pending]) []⟩ := by
  simp only [performAll, performOne, Op.nested, List.map_cons, List.map_nil, resolve, resolveOne,
    Script.perform, performed]
  rfl

/-- An emission before the loop waits for it. -/
theorem performAll_emit (bound : Bool) (program : Program) (before : List Stage) (name : String) :
    performAll [.append .emit []]
        (⟨bound, program, .mk (before ++ [.bare .as_ [.label name]]) []⟩ : Live) =
      .ok ⟨bound, program ++ [.mk .emit []],
        .mk (before ++ [.bare .as_ [.label name]]) [.mk (.mk .emit []) [] true]⟩ := by
  have added := Plan.add_waiting (.mk .emit []) rfl rfl [] before (.mk .as_ [.label name])
    nofun [] []
  change Except.ok (⟨bound, program ++ [.mk .emit []],
    Plan.add (.mk .emit []) [] (.mk (before ++ [_]) [])⟩ : Live) = _
  rw [added]

theorem performAll_emitting
    (performed : performAll body Backend.floating = .ok (⟨false, walked, .mk stages []⟩ : Live))
    (bound : Bool) (program : Program) (before : List Stage) (arguments : List Argument)
    (children : List Plan) :
    performAll [.nested .emit [.of body]]
        (⟨bound, program, .mk (before ++ [.apply (.mk .repeat_ arguments) children []]) []⟩ : Live) =
      .ok ⟨bound, program ++ [.mk .emit [.program walked]], .mk (before ++
        [.apply (.mk .repeat_ arguments) children
          [.mk (.mk .emit [.program walked]) [.mk stages []] false]]) []⟩ := by
  have added := Plan.add_modulator (.mk .emit [.program walked]) rfl [.mk stages []] before
    (.mk .repeat_ arguments) rfl children []
  simp only [performAll, performOne, Op.nested, List.map_cons, List.map_nil, resolve, resolveOne,
    Script.perform, performed]
  change Except.ok (⟨bound, program ++ [.mk .emit [.program walked]],
    Plan.add (.mk .emit [.program walked]) [.mk stages []] (.mk (before ++ [_]) [])⟩ : Live) = _
  rw [added]
  rfl

theorem pathLoop_builds (builds : Builds body stages) (name : String) (range : PathLength) :
    ∃ arguments program, Builds ([.labelled .as_ [name]] ++ pathLoop body range)
      ([.bare .as_ [.label name]] ++
        [.apply (.mk .repeat_ arguments) [.mk stages []] (loopModulators range program)]) := by
  obtain ⟨walked, performed⟩ := builds.fresh
  obtain ⟨counted, performedCount⟩ := (countOps_build range.min).fresh
  refine ⟨[.program walked], counted, ?_⟩
  intro l pending
  obtain ⟨named, labelled⟩ := Builds.labelled .as_ ⟨rfl, by decide⟩ rfl [name] l pending
  rw [performAll_append, labelled, ok_bind, pathLoop, loopModulators, performAll_append,
    ← List.append_assoc]
  by_cases zero : range.min = 0
  · obtain ⟨after, bounded⟩ := performAll_times range.max l.bound
      (named ++ [.mk .emit []] ++ [.mk .repeat_ [.program walked]])
      (l.plan.stages ++ [.bare .as_ [.label name]]) [.program walked] [.mk stages []]
      [.mk (.mk .emit []) [] true]
    refine ⟨after, ?_⟩
    rw [if_pos zero, if_pos zero, ← List.singleton_append, performAll_append]
    have emits := performAll_emit l.bound named l.plan.stages name
    simp only [List.map_cons, List.map_nil]
    rw [emits, ok_bind, performAll_repeat performed, ok_bind, bounded]
    rfl
  · obtain ⟨after, bounded⟩ := performAll_times range.max l.bound
      (named ++ [.mk .repeat_ [.program walked]] ++ [.mk .emit [.program counted]])
      (l.plan.stages ++ [.bare .as_ [.label name]]) [.program walked] [.mk stages []]
      [.mk (.mk .emit [.program counted]) [.mk (countStages range.min) []] false]
    refine ⟨after, ?_⟩
    rw [if_neg zero, if_neg zero, ← List.singleton_append, performAll_append,
      performAll_repeat performed, ok_bind, performAll_emitting performedCount, ok_bind]
    exact bounded

end

variable {engine : Engine} {world : World} {d : Direction} {types : List String} {a r : String}
  {range : PathLength}

/-- Numbers that a query can give keep their order as values. -/
theorem gte_ofNat {least n : Nat} (small : least < twoTo 32) (fits : n < twoTo 32) :
    (Predicate.gte (.ofNat least)).test (.ofNat n) = decide (least ≤ n) := by
  have leastInt : (Int64.ofNat least).toInt = least :=
    Int64.toInt_ofNat_of_lt (Nat.lt_trans small (by decide))
  have nInt : (Int64.ofNat n).toInt = n :=
    Int64.toInt_ofNat_of_lt (Nat.lt_trans fits (by decide))
  rw [Predicate.test, Value.ofNat, Value.ofNat, Predicate.comparison?, leastInt, nInt,
    Bool.eq_iff_iff, decide_eq_true_iff]
  rcases Nat.lt_trichotomy n least with below | rfl | above
  · have order : compare (n : Int) least = .lt := by
      rw [Int.compare_eq_lt]
      omega
    simp [order, below]
  · simp
  · have order : compare (n : Int) least = .gt := by
      rw [Int.compare_eq_gt]
      omega
    simp [order, Nat.le_of_lt above]

theorem count_gives (least : Nat) (small : least < twoTo 32) {t : Traverser}
    (fits : t.loopCount < twoTo 32) (reducing : Bool) :
    Gives world (Child.hasResult ⟨Plan.run engine (.mk (countStages least) []), reducing⟩ t)
      (.ok (decide (least ≤ t.loopCount))) := by
  let asked := t.split (.ofNat t.loopCount)
  have counts : Gives world (Application.loops [t]) (.ok [asked]) := rfl
  have tests : Plan.runStages engine [.bare .is_ [.predicate (.gte (.ofNat least))]] [asked] =
      pure ([asked].filter fun u => (Predicate.gte (.ofNat least)).test u.object) := by
    rw [Plan.runStages_one]
    exact matching_filter (a := ⟨.is_, [.predicate (.gte (.ofNat least))], [], []⟩) rfl _
  have object : (Predicate.gte (.ofNat least)).test asked.object = decide (least ≤ t.loopCount) :=
    gte_ofNat small fits
  have gives : Gives world (Plan.runStages engine (countStages least) [t])
      (.ok ([asked].filter fun u => (Predicate.gte (.ofNat least)).test u.object)) :=
    counts.bind_ok (tests ▸ Gives.pure _)
  refine Child.hasResult_gives (Shows.ok gives ?_)
  rw [HasAny, List.filter_singleton, object]
  cases decide (least ≤ t.loopCount) <;> rfl

theorem serves (consistent : world.store.graph.Consistent) (small : range.min < twoTo 32)
    (sized : world.store.graph.vertices.length < twoTo 32) (first second : Bool) :
    Serves world d types a r range
      ⟨Plan.run engine (.mk (hopStages d types r) []), first⟩
      ⟨Plan.run engine (.mk (countStages range.min) []), second⟩ where
  walks loops t m on := by
    have round : Expands engine world (OnPath world.store.graph d types a r loops) _ _ _ :=
      round_expands consistent
    obtain ⟨out, gives, reached⟩ := round [t] [m] (.cons on .nil)
    rw [List.flatMap_singleton] at reached
    exact ⟨out, gives, reached⟩
  counts t counted := count_gives range.min small (Nat.lt_of_le_of_lt counted sized) second

theorem loopTimes_gives (bounded : ∀ most ∈ range.max, most < twoTo 32) (arguments : List Argument)
    (children : List Child) (program : Program) :
    (Application.mk .repeat_ arguments children
      (Plan.modulations engine (loopModulators range program))).loopTimes = pure range.max := by
  obtain ⟨least, most⟩ := range
  cases most with
  | none => by_cases zero : least = 0 <;> simp only [loopModulators, zero] <;> rfl
  | some n =>
      have value : (Int64.ofNat n).toInt = n :=
        Int64.toInt_ofNat_of_lt (Nat.lt_trans (bounded n rfl) (by decide))
      have fits : (Int64.ofNat n).toInt < twoTo 32 := by
        rw [value]
        exact Int.ofNat_lt.mpr (bounded n rfl)
      have read : (do
          let m ← Arguments.integer .times [.literal (.ofNat n)] 0
          if m.toInt < twoTo 32 then return some m.toInt.toNat else throw (.timesOutOfRange m)) =
          (pure (some n) : Exec (Option Nat)) := by
        change (if (Int64.ofNat n).toInt < twoTo 32 then _ else _) = _
        rw [if_pos fits, value]
        rfl
      rw [← read]
      by_cases zero : least = 0 <;> simp only [loopModulators, zero] <;> rfl

theorem loop_runs (bounded : ∀ most ∈ range.max, most < twoTo 32) (arguments : List Argument)
    (program : Program) (body : Plan) (stream : Stream) :
    Plan.runStage engine (.apply (.mk .repeat_ arguments) [body] (loopModulators range program))
        stream =
      (along ⟨Plan.run engine body, body.isReducing⟩
        ⟨Plan.run engine (.mk (countStages range.min) []),
          (Plan.mk (countStages range.min) []).isReducing⟩
        range).rounds engine.loopLimit engine.loopLimit (stream.map (·.enterLoop)) := by
  have times : (Application.mk .repeat_ arguments [⟨Plan.run engine body, body.isReducing⟩]
      (Plan.modulations engine (loopModulators range program))).loopTimes = pure range.max :=
    loopTimes_gives bounded arguments _ program
  change (Application.mk .repeat_ arguments [⟨Plan.run engine body, body.isReducing⟩]
    (Plan.modulations engine (loopModulators range program))).repeat_ engine.loopLimit stream = _
  rw [repeat_, times]
  obtain ⟨least, most⟩ := range
  by_cases zero : least = 0
  · simp only [loopModulators, zero, along, if_true]
    cases most <;> rfl
  · simp only [loopModulators, zero, along, if_false]
    cases most <;> rfl

/-- A path of variable length between two nodes, all of them named. -/
def pathClause (a r b : String) (types : List String) (d : Direction) (range : PathLength) :
    MatchClause :=
  ⟨[⟨⟨some a, [], []⟩, [(⟨some r, types, [], d, some range⟩, ⟨some b, [], []⟩)]⟩], none⟩

/-- The steps of a path of variable length, none if it has no edge. -/
def walkOps (r : String) (types : List String) (d : Direction) (range : PathLength) : Ops :=
  if range.max = some 0 then []
  else pathLoop (hopOps ⟨some r, types, [], d, some range⟩ []) range

theorem pathClause_run {a r b : String} (ar : a ≠ r) (ab : a ≠ b) (rb : r ≠ b)
    (types : List String) (d : Direction) (range : PathLength) : ∃ scope,
    (matchClauses [pathClause a r b types d range]).run .empty =
      .ok (.vertices :: ([.labelled .as_ [a]] ++ walkOps r types d range ++ [.labelled .as_ [b]]),
        scope) := by
  refine ⟨⟨[(a, .node), (r, .relationships), (b, .node)], true, 0⟩, ?_⟩
  have constraints (bindings : Bindings) (name : String) :
      constraintOps bindings ⟨some name, [], []⟩ = .ok [] := rfl
  have start : (matchStart ⟨some a, [], []⟩).run .empty =
      .ok ([.vertices, .labelled .as_ [a]], ⟨[(a, .node)], true, 0⟩) := rfl
  have edge : (matchRelationship ⟨some r, types, [], d, some range⟩).run ⟨[(a, .node)], true, 0⟩ =
      .ok (walkOps r types d range, ⟨[(a, .node), (r, .relationships)], true, 0⟩) := by
    rw [matchRelationship_run]
    have new : boundKind? [(a, NameKind.node)] (some r) = none := by
      simp [boundKind?, Dictionary.get?, ar]
    have scope : Scope.declared ⟨[(a, .node)], true, 0⟩ .relationships (some r) =
        ⟨[(a, .node), (r, .relationships)], true, 0⟩ := by
      simp [Scope.declared, Dictionary.put, ar]
    simp only [new, scope, walkOps]
    split <;> rfl
  have arrival : (matchEnd ⟨some b, [], []⟩).run ⟨[(a, .node), (r, .relationships)], true, 0⟩ =
      .ok ([.labelled .as_ [b]], ⟨[(a, .node), (r, .relationships), (b, .node)], true, 0⟩) := by
    rw [matchEnd_run]
    have new : boundKind? [(a, NameKind.node), (r, .relationships)] (some b) = none := by
      simp [boundKind?, Dictionary.get?, ab, rb]
    have scope : Scope.declared ⟨[(a, .node), (r, .relationships)], true, 0⟩ .node (some b) =
        ⟨[(a, .node), (r, .relationships), (b, .node)], true, 0⟩ := by
      simp [Scope.declared, Dictionary.put, ab, rb]
    simp only [new, scope, constraints]
    rfl
  rw [matchClauses_eq (by simp [pathClause])]
  simp only [pathClause, List.flatMap_cons, List.flatMap_nil, List.append_nil, matchPaths, matchPath,
    matchChain, StateT.run_bind, start, edge, arrival, ok_bind]
  change Except.ok ([.vertices, .labelled .as_ [a]] ++
    (walkOps r types d range ++ [.labelled .as_ [b]] ++ []) ++ [], _) = _
  rw [List.append_nil, List.append_nil, ← List.append_assoc]
  rfl

theorem hopOps_build (r : String) (types : List String) (d : Direction) (range : PathLength) :
    Builds (hopOps ⟨some r, types, [], d, some range⟩ []) (hopStages d types r) := by
  have leave : Builds [edgeStep d types] [.bare (edgeKind d) (types.map .label)] := by
    cases d <;> exact Builds.labelled _ ⟨rfl, by decide⟩ rfl types
  have arrive : Builds [vertexStep d] [.bare (vertexKind d) []] := by
    cases d <;> exact Builds.step _ ⟨rfl, by decide⟩ rfl [] rfl
  have label := Builds.labelled .as_ ⟨rfl, by decide⟩ rfl [r]
  have simple : Builds [.append .simplePath []] [.bare .simplePath []] :=
    Builds.step .simplePath ⟨rfl, by decide⟩ rfl [] rfl
  exact ((leave.append label).append arrive).append simple

/-- A traverser finds a path under the names of a pattern. -/
def FindsPath (world : World) (a r b : String) (t : Traverser) (m : PathMatch) : Prop :=
  world.named? t .last a = some (.vertex m.start.ref) ∧
    world.named? t .all r = some (.list (m.hops.map fun hop => .edge hop.1.ref)) ∧
    world.named? t .last b = some (.vertex m.final.ref)

theorem finds_path {g : Graph} {a r b : String} (ar : a ≠ r) (ab : a ≠ b) (rb : r ≠ b)
    (quiet : world.sideEffects = []) {t : Traverser} {m : PathMatch}
    (on : OnPath g d types a r [] t m) : FindsPath world a r b (t.addLabel b) m := by
  have labelled (u : Traverser) (name : String) : u.labelled name =
      ((u.here :: u.past).reverse.filter (·.labels.contains name)).map (·.object) := by
    rw [Traverser.labelled, List.filter_reverse, List.map_reverse]
  have object : (t.addLabel b).object = .vertex m.final.ref := by
    rw [← on.1.object]
    unfold Traverser.addLabel
    split <;> rfl
  have named (pop : Pop) (name : String) :
      world.named? (t.addLabel b) pop name = (t.addLabel b).pathValue? pop name := by
    simp [World.named?, object, Value.map?, quiet, Dictionary.get?]
  have start : t.labelled a = [.vertex m.start.ref] := by
    rw [labelled, on.1.visits]
    simp [PathMatch.trail, List.filter_flatMap, List.map_flatMap, ar]
  have edges : t.labelled r = m.hops.map fun hop => .edge hop.1.ref := by
    rw [labelled, on.1.visits]
    simp [PathMatch.trail, List.filter_flatMap, Ne.symm ar, ← List.map_eq_flatMap]
  refine ⟨?_, ?_, ?_⟩
  · rw [named, Traverser.pathValue?, Traverser.labelled_addLabel_of_ne t ab, start]
    rfl
  · rw [named, Traverser.pathValue?, Traverser.labelled_addLabel_of_ne t rb, edges]
  · rw [named, Traverser.pathValue?, Traverser.last_addLabel, ← on.1.object]

theorem start_expands (g : Graph) (d : Direction) (types : List String) (a r : String) :
    Expands engine world (fun t v => t = .start (.vertex v.ref) ∧ v ∈ g.vertices)
      [.bare .as_ [.label a]] (fun v => [⟨v, []⟩]) (OnPath g d types a r []) := by
  refine Expands.as_ fun t v ⟨start, stored⟩ => ⟨?_, .of_vertex stored⟩
  rw [start]
  exact ⟨rfl, rfl, rfl⟩

/-- Between the labels of both ends all paths whose lengths are in the range are walked. -/
theorem walk_runs (world : World) (d : Direction) (types : List String) (a r : String)
    (consistent : world.store.graph.Consistent)
    (fits : world.store.graph.vertices.length ≤ engine.loopLimit)
    (limited : engine.loopLimit < twoTo 32)
    (least : range.min < twoTo 32) (ordered : ∀ most ∈ range.max, range.min ≤ most)
    (bounded : ∀ most ∈ range.max, most < twoTo 32) :
    ∃ stages, Builds ([.labelled .as_ [a]] ++ walkOps r types d range)
        ([.bare .as_ [.label a]] ++ stages) ∧
      ∀ stream, List.Forall₂ (OnPath world.store.graph d types a r []) stream
          (pathsOf world.store.graph d types 0) →
        ∃ out, Gives world (Plan.runStages engine stages stream) (.ok out) ∧
          List.Forall₂ (OnPath world.store.graph d types a r []) out
            (pathsFrom world.store.graph d types range 0) := by
  have sized := Nat.lt_of_le_of_lt fits limited
  by_cases empty : range.max = some 0
  · have none_ : range.min = 0 := Nat.le_zero.mp (ordered 0 empty)
    refine ⟨[], ?_, fun stream stand => ⟨stream, Gives.pure _, ?_⟩⟩
    · rw [walkOps, if_pos empty]
      exact Builds.labelled .as_ ⟨rfl, by decide⟩ rfl [a]
    · rw [pathsFrom_last consistent (Nat.le_of_eq none_) empty]
      exact stand
  · obtain ⟨arguments, program, builds⟩ := pathLoop_builds (hopOps_build r types d range) a range
    refine ⟨_, by rwa [walkOps, if_neg empty], fun stream stand => ?_⟩
    have before : ∀ most ∈ range.max, 0 < most := by
      intro most bound
      rcases Nat.eq_zero_or_pos most with rfl | positive
      · exact absurd bound empty
      · exact positive
    rw [Plan.runStages_one, loop_runs bounded]
    have entered : List.Forall₂ (OnPath world.store.graph d types a r [0])
        (stream.map (·.enterLoop)) (pathsOf world.store.graph d types 0) := by
      rw [List.forall₂_map_left_iff]
      refine stand.imp fun t m on => ⟨⟨on.1.visits, on.1.object, ?_⟩, on.2⟩
      rw [Traverser.enterLoop, on.1.loops]
    have enough : world.store.graph.vertices.length ≤ 0 + engine.loopLimit := by omega
    obtain ⟨out, gives, reached⟩ := rounds_walk consistent engine.loopLimit
      (serves consistent least sized _ _) ordered entered enough before
    refine ⟨out, gives, ?_⟩
    rw [pathsFrom_before consistent fun most _ => Nat.zero_le most,
      if_congr Nat.le_zero rfl rfl]
    exact reached

/-- A pattern of variable length finds each simple path whose number of edges is in the range, and
finds it once; on a graph with no more vertices than a loop may have rounds it never fails. -/
theorem variable_length_finds_simple_paths (store : Store) (engine : Engine)
    (reachable : store.graph.Reachable) (fits : store.graph.vertices.length ≤ engine.loopLimit)
    (limited : engine.loopLimit < twoTo 32) {a r b : String} (ar : a ≠ r) (ab : a ≠ b) (rb : r ≠ b)
    (types : List String) (d : Direction) {range : PathLength} (least : range.min < twoTo 32)
    (bounded : ∀ most ∈ range.max, range.min ≤ most ∧ most < twoTo 32) :
    ∃ operations scope l,
      (matchClauses [pathClause a r b types d range]).run .empty = .ok (operations, scope) ∧
      performAll operations Live.onGraph = .ok l ∧
      ∃ stream, Gives ⟨store, []⟩ (l.plan.run engine []) (.ok stream) ∧
        ∃ found : List PathMatch, found.Nodup ∧
          (∀ m, m ∈ found ↔
            IsSimplePath store.graph d types m ∧ range.Allows m.hops.length) ∧
          List.Forall₂ (FindsPath ⟨store, []⟩ a r b) stream found := by
  have consistent := reachable.consistent
  obtain ⟨scope, compiled⟩ := pathClause_run ar ab rb types d range
  obtain ⟨stages, builds, runs⟩ := walk_runs ⟨store, []⟩ d types a r consistent fits limited least
    (fun most bound => (bounded most bound).1) fun most bound => (bounded most bound).2
  have built := builds.append (Builds.labelled .as_ ⟨rfl, by decide⟩ rfl [b])
  obtain ⟨program, performed⟩ := built ⟨true, [.mk .v []], .mk [.vertices] []⟩ rfl
  refine ⟨_, scope, _, compiled, performed, ?_⟩
  have rooted : List.Forall₂ (fun t v => t = .start (.vertex v.ref) ∧ v ∈ store.graph.vertices)
      (store.graph.vertices.map fun v => Traverser.start (.vertex v.ref)) store.graph.vertices := by
    rw [List.forall₂_map_left_iff, List.forall₂_same]
    exact fun v stored => ⟨rfl, stored⟩
  have starting : Expands engine ⟨store, []⟩ _ _ _ (OnPath store.graph d types a r []) :=
    start_expands store.graph d types a r
  obtain ⟨named, givesNamed, reachedNamed⟩ := starting _ _ rooted
  rw [← List.map_eq_flatMap] at reachedNamed
  obtain ⟨walked, givesWalked, reachedWalked⟩ := runs named reachedNamed
  have ending : Expands engine ⟨store, []⟩ (OnPath store.graph d types a r [])
      [.bare .as_ [.label b]] (fun m => [m]) (FindsPath ⟨store, []⟩ a r b) :=
    Expands.as_ fun t m on => finds_path ar ab rb rfl on
  obtain ⟨stream, gives, reached⟩ := ending _ _ reachedWalked
  rw [List.flatMap_singleton'] at reached
  have run : Gives ⟨store, []⟩ (Plan.runStages engine
      ([.bare .as_ [.label a]] ++ stages ++ [.bare .as_ [.label b]])
      (store.graph.vertices.map fun v => Traverser.start (.vertex v.ref))) (.ok stream) := by
    rw [Plan.runStages_append, Plan.runStages_append]
    exact Gives.bind_ok (Gives.bind_ok givesNamed givesWalked) gives
  refine ⟨stream, ?_, _, pathsWithin_nodup consistent _ _, fun m => ?_, reached⟩
  · exact Plan.run_rooted run
  · rw [mem_pathsWithin consistent]
    constructor
    · rintro ⟨path, allowed, _⟩
      exact ⟨path, allowed⟩
    · rintro ⟨path, allowed⟩
      have short : m.hops.length < 0 + store.graph.vertices.length := by
        rw [Nat.zero_add]
        exact path.length_lt
      exact ⟨path, allowed, Nat.zero_le _, short⟩

theorem one_edge_has_simple_paths : ∃ operations scope l,
    (matchClauses [pathClause "a" "r" "b" ["k"] .both ⟨0, none⟩]).run .empty =
      .ok (operations, scope) ∧
    performAll operations Live.onGraph = .ok l ∧
    ∃ stream, Gives ⟨⟨.oneEdge, .zero⟩, []⟩ (l.plan.run (.standard 2) []) (.ok stream) ∧
      ∃ found : List PathMatch, found.Nodup ∧
        (∀ m, m ∈ found ↔ IsSimplePath .oneEdge .both ["k"] m ∧
          PathLength.Allows ⟨0, none⟩ m.hops.length) ∧
        List.Forall₂ (FindsPath ⟨⟨.oneEdge, .zero⟩, []⟩ "a" "r" "b") stream found :=
  variable_length_finds_simple_paths ⟨.oneEdge, .zero⟩ (.standard 2) Graph.oneEdge_reachable
    (by decide) (by decide) (by decide) (by decide) (by decide) ["k"] .both (by decide) nofun

end Cypher

end PropertyGraph
