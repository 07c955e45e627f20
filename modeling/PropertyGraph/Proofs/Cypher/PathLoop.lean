import PropertyGraph.Proofs.Builder.Stages
import PropertyGraph.Proofs.Cypher.PatternScript
import PropertyGraph.Proofs.Cypher.SimplePaths

/-!
The loop along a path of variable length. In each round its traversers stand for the paths of one
length, and it lets out those whose length is in the range; it ends before its limit if there are no
more vertices than that.
-/

namespace PropertyGraph

open Exec Script

/-! A traverser is on a simple path if and only if all that it met is distinct. -/

namespace PathMatch

/-- All that is met along a path. -/
def objects (m : PathMatch) : List Value :=
  .vertex m.start.ref :: m.hops.flatMap fun hop => [.edge hop.1.ref, .vertex hop.2.ref]

theorem objects_extended (m : PathMatch) (e : Edge) (w : Vertex) :
    (m.extended e w).objects = m.objects ++ [.edge e.ref, .vertex w.ref] := by
  simp [objects, extended]

theorem mem_objects_vertex {m : PathMatch} {ref : VertexRef} :
    Value.vertex ref ∈ m.objects ↔ ∃ v ∈ m.vertices, v.ref = ref := by
  simp only [objects, vertices, List.mem_cons, List.mem_flatMap, Value.vertex.injEq, reduceCtorEq,
    List.not_mem_nil, or_false, false_or, exists_eq_or_imp, List.mem_map,
    exists_exists_and_eq_and, eq_comm (a := ref)]

theorem mem_objects_edge {m : PathMatch} {ref : EdgeRef} :
    Value.edge ref ∈ m.objects ↔ ∃ hop ∈ m.hops, hop.1.ref = ref := by
  simp [objects, eq_comm]

end PathMatch

namespace IsSimplePath

variable {g : Graph} {d : Direction} {types : List String} {m : PathMatch} {e : Edge} {w : Vertex}

theorem ends_visited (path : IsSimplePath g d types m) {hop : Edge × Vertex}
    (member : hop ∈ m.hops) :
    hop.1.source ∈ m.vertices.map Vertex.id ∧ hop.1.target ∈ m.vertices.map Vertex.id := by
  generalize length : m.hops.length = k
  induction k generalizing m with
  | zero =>
      rw [List.length_eq_zero_iff.mp length] at member
      cases member
  | succ k ih =>
      obtain ⟨before, e, w, rfl, shorter⟩ := PathMatch.exists_extended length
      obtain ⟨pathBefore, _, _, leads, _⟩ := extended_iff.mp path
      rw [PathMatch.vertices_extended, List.map_append, List.mem_append, List.mem_append]
      rcases List.mem_append.mp member with old | new
      · obtain ⟨source, target⟩ := ih pathBefore old shorter
        exact ⟨.inl source, .inl target⟩
      · rw [List.mem_singleton.mp new]
        have here : before.final.id ∈ before.vertices.map Vertex.id :=
          List.mem_map_of_mem (final_mem before)
        have there : w.id ∈ [w].map Vertex.id := List.mem_cons_self
        cases d with
        | outgoing =>
            obtain ⟨source, target⟩ := leads
            exact ⟨.inl (source ▸ here), .inr (target ▸ there)⟩
        | incoming =>
            obtain ⟨target, source⟩ := leads
            exact ⟨.inr (source ▸ there), .inl (target ▸ here)⟩
        | both =>
            rcases leads with ⟨source, target⟩ | ⟨target, source⟩
            · exact ⟨.inl (source ▸ here), .inr (target ▸ there)⟩
            · exact ⟨.inr (source ▸ there), .inl (target ▸ here)⟩

theorem distinct_iff (consistent : g.Consistent) (path : IsSimplePath g d types m)
    (distinct : m.objects.Nodup) (vertex : w ∈ g.vertices) (leads : d.Leads e m.final w) :
    (m.extended e w).objects.Nodup ↔ w ∉ m.vertices := by
  have visited : Value.vertex w.ref ∈ m.objects ↔ w ∈ m.vertices := by
    rw [PathMatch.mem_objects_vertex]
    constructor
    · rintro ⟨v, member, same⟩
      have id : v.id = w.id := congrArg VertexRef.id same
      rwa [← consistent.distinct (path.stored v member) vertex id]
    · intro member
      exact ⟨w, member, rfl⟩
  rw [PathMatch.objects_extended, List.nodup_append]
  constructor
  · rintro ⟨_, _, apart⟩ member
    exact apart _ (visited.mpr member) _ (by simp) rfl
  · intro fresh
    refine ⟨distinct, by simp, ?_⟩
    rintro v member _ added rfl
    rcases List.mem_pair.mp added with rfl | rfl
    · obtain ⟨hop, onPath, same⟩ := PathMatch.mem_objects_edge.mp member
      have ends := path.ends_visited onPath
      have source : hop.1.source = e.source := congrArg EdgeRef.source same
      have target : hop.1.target = e.target := congrArg EdgeRef.target same
      rw [source, target] at ends
      have there : w.id ∈ m.vertices.map Vertex.id := by
        cases d with
        | outgoing => exact leads.2 ▸ ends.2
        | incoming => exact leads.2 ▸ ends.1
        | both =>
            rcases leads with ⟨_, target⟩ | ⟨_, source⟩
            · exact target ▸ ends.2
            · exact source ▸ ends.1
      obtain ⟨v, member, id⟩ := List.mem_map.mp there
      rw [consistent.distinct (path.stored v member) vertex id] at member
      exact fresh member
    · exact fresh (visited.mp member)

theorem objects_nodup (consistent : g.Consistent) (path : IsSimplePath g d types m) :
    m.objects.Nodup := by
  generalize length : m.hops.length = k
  induction k generalizing m with
  | zero =>
      rw [PathMatch.objects, List.length_eq_zero_iff.mp length]
      exact List.nodup_singleton _
  | succ k ih =>
      obtain ⟨before, e, w, rfl, shorter⟩ := PathMatch.exists_extended length
      obtain ⟨pathBefore, _, vertex, leads, fresh⟩ := extended_iff.mp path
      exact (distinct_iff consistent pathBefore (ih pathBefore shorter) vertex leads).mpr fresh

end IsSimplePath

theorem Application.allDistinct_iff (values : List Value) :
    Application.allDistinct values = true ↔ values.Nodup := by
  induction values with
  | nil => simp [allDistinct]
  | cons v rest ih => simp [allDistinct, ih]

namespace PathMatch

/-- The visits of a traverser that labels the start of a path and its edges. -/
def trail (a r : String) (m : PathMatch) : List Visit :=
  ⟨[a], .vertex m.start.ref⟩ ::
    m.hops.flatMap fun hop => [⟨[r], .edge hop.1.ref⟩, ⟨[], .vertex hop.2.ref⟩]

theorem trail_extended (a r : String) (m : PathMatch) (e : Edge) (w : Vertex) :
    (m.extended e w).trail a r =
      m.trail a r ++ [⟨[r], .edge e.ref⟩, ⟨[], .vertex w.ref⟩] := by
  simp [trail, extended]

theorem trail_objects (a r : String) (m : PathMatch) :
    (m.trail a r).map (·.object) = m.objects := by
  simp [trail, objects, List.map_flatMap]

end PathMatch

/-- A traverser that has walked a path, within these loops. -/
structure Traverser.Walked (a r : String) (loops : List Nat) (t : Traverser) (m : PathMatch) :
    Prop where
  visits : (t.here :: t.past).reverse = m.trail a r
  object : t.object = .vertex m.final.ref
  loops : t.loops = loops

namespace Cypher

variable {engine : Engine} {world : World} {d : Direction} {types : List String} {a r : String}
  {loops : List Nat}

/-- A traverser that has walked a simple path. -/
def OnPath (g : Graph) (d : Direction) (types : List String) (a r : String) (loops : List Nat)
    (t : Traverser) (m : PathMatch) : Prop :=
  t.Walked a r loops m ∧ IsSimplePath g d types m

/-- A traverser that has left the end of a path over an edge, with these labels for the edge. -/
structure OnEdge (g : Graph) (d : Direction) (a r : String) (loops : List Nat)
    (labels : List String) (t : Traverser) (state : PathMatch × Edge) : Prop where
  here : t.here = ⟨labels, .edge state.2.ref⟩
  past : t.past.reverse = state.1.trail a r
  previous : Application.previousVertex? t = some state.1.final.id
  loops : t.loops = loops
  leaving : state.2 ∈ d.edgesAt g state.1.final.id

/-- The stages of one round. -/
def hopStages (d : Direction) (types : List String) (r : String) : List Stage :=
  [.bare (edgeKind d) (types.map .label)] ++ [.bare .as_ [.label r]] ++
    [.bare (vertexKind d) []] ++ [.bare .simplePath []]

theorem leave_expands :
    Expands engine world (OnPath world.store.graph d types a r loops)
      [.bare (edgeKind d) (types.map .label)]
      (fun m => ((d.edgesAt world.store.graph m.final.id).filter (ofTypes types)).map (m, ·))
      (OnEdge world.store.graph d a r loops []) := by
  refine Expands.edges (fun t m on => on.1.object) fun t m on e leaving => ?_
  obtain ⟨walked, _⟩ := on
  have here : t.here.object = .vertex m.final.ref := walked.object
  exact {
    here := rfl
    past := walked.visits
    previous := by
      simp [Application.previousVertex?, Traverser.split, here, Application.vertexId?, Vertex.ref]
    loops := walked.loops
    leaving := leaving }

theorem label_expands :
    Expands engine world (OnEdge world.store.graph d a r loops []) [.bare .as_ [.label r]]
      (fun state => [state]) (OnEdge world.store.graph d a r loops [r]) := by
  refine Expands.as_ fun t state on => ?_
  have added : t.addLabel r = { t with here := ⟨[r], .edge state.2.ref⟩ } := by
    simp [Traverser.addLabel, on.here]
  rw [added]
  exact ⟨rfl, on.past, on.previous, on.loops, on.leaving⟩

theorem ahead_eq {labels : List String} {t : Traverser} {state : PathMatch × Edge}
    (on : OnEdge world.store.graph d a r loops labels t state) :
    d.ahead state.2.ref t = d.farEnd state.2 state.1.final.id := by
  cases d with
  | outgoing => rfl
  | incoming => rfl
  | both =>
      simp only [Direction.ahead, Application.otherEnd, on.previous, Option.some.injEq]
      rfl

theorem arrive_expands (consistent : world.store.graph.Consistent) :
    Expands engine world (OnEdge world.store.graph d a r loops [r]) [.bare (vertexKind d) []]
      (fun state => (world.store.graph.withId (d.farEnd state.2 state.1.final.id)).map
        (state.1.extended state.2))
      (Traverser.Walked a r loops) := by
  refine Expands.ahead fun t state on => ?_
  have stored := ((Direction.mem_edgesAt consistent).mp on.leaving).1
  obtain ⟨w, vertex, far⟩ := Direction.farEnd_stored consistent d stored state.1.final.id
  have object : t.object = .edge state.2.ref := by rw [Traverser.object, on.here]
  refine ⟨state.2.ref, w, state.1.extended state.2 w, object, ?_, ?_, ?_⟩
  · rw [ahead_eq on, ← far]
    exact consistent.vertex?_eq vertex
  · rw [← far, consistent.withId_eq vertex]
    rfl
  · exact {
      visits := by
        rw [PathMatch.trail_extended, ← on.past, ← on.here]
        simp [Traverser.split]
      object := by rw [PathMatch.final_extended]; rfl
      loops := on.loops }

theorem simple_expands :
    Expands engine world (Traverser.Walked a r loops) [.bare .simplePath []]
      (fun m => if decide m.objects.Nodup then [m] else []) (Traverser.Walked a r loops) := by
  refine Expands.keep (fun stream => rfl) fun t m walked => ?_
  have path : t.path = m.objects := by
    rw [Traverser.path, ← List.map_reverse, walked.visits, PathMatch.trail_objects]
  have same : Application.allDistinct t.path = decide m.objects.Nodup := by
    rw [path, Bool.eq_iff_iff, Application.allDistinct_iff, decide_eq_true_iff]
  rw [← same]
  exact Gives.pure _

/-- A hop stays on a simple path if and only if it ends at a new vertex. -/
theorem simple_hops {g : Graph} (consistent : g.Consistent) {m : PathMatch}
    (path : IsSimplePath g d types m) {e : Edge} (leaving : e ∈ d.edgesAt g m.final.id) :
    (((g.withId (d.farEnd e m.final.id)).map (m.extended e)).flatMap fun longer =>
      if decide longer.objects.Nodup then [longer] else []) =
      if m.vertices.all fun v => v.id != d.farEnd e m.final.id then
        (g.withId (d.farEnd e m.final.id)).map (m.extended e) else [] := by
  have stored := ((Direction.mem_edgesAt consistent).mp leaving).1
  obtain ⟨w, vertex, far⟩ := Direction.farEnd_stored consistent d stored m.final.id
  have leads := (Direction.leads_iff consistent stored).mpr ⟨leaving, far.symm⟩
  have simple := path.distinct_iff consistent (path.objects_nodup consistent) vertex leads
  rw [← path.fresh_iff consistent vertex] at simple
  rw [← far, consistent.withId_eq vertex, List.map_singleton, List.flatMap_singleton]
  simp only [simple, Bool.decide_eq_true]

/-- One round leads from each path to those that are one hop longer. -/
theorem round_expands (consistent : world.store.graph.Consistent) :
    Expands engine world (OnPath world.store.graph d types a r loops) (hopStages d types r)
      (PathMatch.nexts world.store.graph d types)
      (OnPath world.store.graph d types a r loops) := by
  have leave : Expands engine world (OnPath world.store.graph d types a r loops) _ _ _ :=
    leave_expands
  have walk := ((leave.append label_expands).append (arrive_expands consistent)).append
    simple_expands
  refine (walk.congr (g := PathMatch.nexts world.store.graph d types) fun t m on => ?_).knowing
    fun _ m on t longer next walked => ⟨walked, ?_⟩
  · have order : (fun e => ofTypes types e && m.vertices.all fun v =>
        v.id != d.farEnd e m.final.id) =
        fun e => (m.vertices.all fun v => v.id != d.farEnd e m.final.id) && ofTypes types e :=
      funext fun e => Bool.and_comm _ _
    rw [List.flatMap_singleton', List.flatMap_map, List.flatMap_assoc, PathMatch.nexts, order,
      ← List.filter_filter, ← flatMap_filter fun e => m.vertices.all fun v => v.id != _]
    apply List.flatMap_congr
    intro e found
    exact simple_hops consistent on.2 (List.mem_filter.mp found).1
  · obtain ⟨e, w, rfl, path⟩ := (PathMatch.mem_nexts consistent on.2).mp next
    exact path

end Cypher

namespace Application.Loop

variable {α β γ : Type} {world : World} {R : Traverser → α → Prop} {S : Traverser → β → Prop}
  {T : Traverser → γ → Prop}

theorem sift_gives {h : Traverser → Exec (Stream × Stream)} {f : α → List β} {next : α → List γ}
    (each : ∀ t a, R t a → ∃ out on, Gives world (h t) (.ok (out, on)) ∧
      List.Forall₂ S out (f a) ∧ List.Forall₂ T on (next a))
    {stream : Stream} {states : List α} (stand : List.Forall₂ R stream states) :
    ∃ out on, Gives world (sift h stream) (.ok (out, on)) ∧
      List.Forall₂ S out (states.flatMap f) ∧ List.Forall₂ T on (states.flatMap next) := by
  induction stand with
  | nil => exact ⟨[], [], Gives.pure _, .nil, .nil⟩
  | @cons t a stream states first _ ih =>
      obtain ⟨out, on, gives, left, goes⟩ := each t a first
      obtain ⟨more, others, givesMore, leftMore, goesMore⟩ := ih
      refine ⟨out ++ more, on ++ others, ?_, List.rel_append left leftMore,
        List.rel_append goes goesMore⟩
      exact gives.bind_ok (givesMore.bind_ok (Gives.pure _))

theorem flatMap_nothing (states : List α) : (states.flatMap fun _ => ([] : List β)) = [] :=
  List.flatMap_eq_nil_iff.mpr fun _ _ => rfl

theorem rounds_nil (loop : Loop) (limit left : Nat) :
    Gives world (loop.rounds limit left []) (.ok []) := by
  cases left <;> rfl

/-- The loop along a path of variable length. -/
def along (body condition : Child) (range : PathLength) : Loop where
  body := body
  times := range.max
  until_ := none
  emit := some (if range.min = 0 then (none, true) else (some condition, false))

variable {body condition : Child} {range : PathLength}

theorem stay_before (t : Traverser) :
    Gives world ((along body condition range).stay true t)
      (.ok (if range.min = 0 then [t.exitLoop] else [], [t])) := by
  by_cases zero : range.min = 0
  · simp only [stay, leaves, emits, along, if_pos zero]
    rfl
  · simp only [stay, leaves, emits, along, if_neg zero]
    rfl

/-- After a round a traverser leaves if the path is long enough, and goes on unless that was the last
round. -/
theorem settle_gives (body : Child) {t : Traverser} (asks : Gives world (condition.hasResult t)
    (.ok (decide (range.min ≤ t.loopCount)))) :
    Gives world ((along body condition range).settle t)
      (.ok (if range.max.any (· ≤ t.loopCount) ∨ range.min ≠ 0 ∧ range.min ≤ t.loopCount
          then [t.exitLoop] else [],
        if range.max.any (· ≤ t.loopCount) then [] else [t])) := by
  rw [settle, isDone]
  by_cases done : range.max.any (· ≤ t.loopCount) = true
  · have times : (along body condition range).times.any (· ≤ t.loopCount) = true := done
    rw [if_pos times, if_pos (.inl done), if_pos done]
    exact Gives.pure _
  · have times : ¬(along body condition range).times.any (· ≤ t.loopCount) = true := done
    rw [if_neg times, if_neg done]
    by_cases zero : range.min = 0
    · simp only [stay, leaves, emits, along, zero, done, ne_eq, not_true_eq_false, false_and,
        or_false]
      rfl
    · simp only [stay, leaves, emits, along, ne_eq, zero, done, not_false_eq_true, true_and,
        if_false]
      refine Gives.bind_ok (a := false) (Gives.pure _) (asks.bind_ok ?_)
      by_cases least : range.min ≤ t.loopCount
      · simp only [least, decide_true, if_true]
        exact Gives.pure _
      · simp only [least, decide_false]
        exact Gives.pure _

theorem pass_gives {t : Traverser} {results : Stream}
    (runs : Gives world (body.run [t]) (.ok results)) :
    Gives world ((along body condition range).pass t) (.ok ([], results.map (·.countLoop))) := by
  refine runs.bind_ok ?_
  cases results <;> exact Gives.pure _

end Application.Loop

namespace Cypher

open Application Application.Loop

variable {world : World} {d : Direction} {types : List String} {a r : String}
  {body condition : Child} {range : PathLength}

/-- What the sub-traversals of the loop do to a traverser on a path. -/
structure Serves (world : World) (d : Direction) (types : List String) (a r : String)
    (range : PathLength) (body condition : Child) : Prop where
  walks : ∀ loops t m, OnPath world.store.graph d types a r loops t m →
    ∃ out, Gives world (body.run [t]) (.ok out) ∧
      List.Forall₂ (OnPath world.store.graph d types a r loops) out
        (m.nexts world.store.graph d types)
  counts : ∀ t : Traverser, t.loopCount ≤ world.store.graph.vertices.length →
    Gives world (condition.hasResult t) (.ok (decide (range.min ≤ t.loopCount)))

theorem OnPath.counted {g : Graph} {k : Nat} {t : Traverser} {m : PathMatch}
    (on : OnPath g d types a r [k] t m) : OnPath g d types a r [k + 1] t.countLoop m := by
  obtain ⟨⟨visits, object, loops⟩, path⟩ := on
  have counted : t.countLoop = { t with loops := [k + 1] } := by simp [Traverser.countLoop, loops]
  rw [counted]
  exact ⟨⟨visits, object, rfl⟩, path⟩

theorem OnPath.left {g : Graph} {k : Nat} {t : Traverser} {m : PathMatch}
    (on : OnPath g d types a r [k] t m) : OnPath g d types a r [] t.exitLoop m := by
  obtain ⟨⟨visits, object, loops⟩, path⟩ := on
  have left : t.exitLoop = { t with loops := [] } := by simp [Traverser.exitLoop, loops]
  rw [left]
  exact ⟨⟨visits, object, rfl⟩, path⟩

/-- One pass through the body leads from the paths of one length to those of the next. -/
theorem passes (serves : Serves world d types a r range body condition) {k : Nat}
    {stream : Stream}
    (stand : List.Forall₂ (OnPath world.store.graph d types a r [k]) stream
      (pathsOf world.store.graph d types k)) :
    ∃ produced, Gives world (sift (along body condition range).pass stream) (.ok ([], produced)) ∧
      List.Forall₂ (OnPath world.store.graph d types a r [k + 1]) produced
        (pathsOf world.store.graph d types (k + 1)) := by
  have each : ∀ t m, OnPath world.store.graph d types a r [k] t m → ∃ out on,
      Gives world ((along body condition range).pass t) (.ok (out, on)) ∧
        List.Forall₂ (fun (_ : Traverser) (_ : PathMatch) => True) out [] ∧
        List.Forall₂ (OnPath world.store.graph d types a r [k + 1]) on
          (m.nexts world.store.graph d types) := by
    intro t m on
    obtain ⟨results, gives, reached⟩ := serves.walks [k] t m on
    refine ⟨[], _, pass_gives gives, .nil, ?_⟩
    rw [List.forall₂_map_left_iff]
    exact reached.imp fun u m' => OnPath.counted
  obtain ⟨out, on, gives, none_, reached⟩ := sift_gives each stand
  rw [flatMap_nothing, List.forall₂_nil_right_iff] at none_
  rw [none_] at gives
  exact ⟨on, gives, reached⟩

/-- What is asked before a round lets out all paths of one length, or none. -/
theorem stays (body condition : Child) (range : PathLength) {k : Nat} {stream : Stream}
    (stand : List.Forall₂ (OnPath world.store.graph d types a r [k]) stream
      (pathsOf world.store.graph d types k)) :
    ∃ early next, Gives world (sift ((along body condition range).stay true) stream)
        (.ok (early, next)) ∧
      List.Forall₂ (OnPath world.store.graph d types a r []) early
        (if range.min = 0 then pathsOf world.store.graph d types k else []) ∧
      List.Forall₂ (OnPath world.store.graph d types a r [k]) next
        (pathsOf world.store.graph d types k) := by
  have each : ∀ t m, OnPath world.store.graph d types a r [k] t m → ∃ out on,
      Gives world ((along body condition range).stay true t) (.ok (out, on)) ∧
        List.Forall₂ (OnPath world.store.graph d types a r []) out
          (if range.min = 0 then [m] else []) ∧
        List.Forall₂ (OnPath world.store.graph d types a r [k]) on [m] := by
    intro t m on
    refine ⟨_, _, stay_before t, ?_, .cons on .nil⟩
    split
    · exact .cons on.left .nil
    · exact .nil
  obtain ⟨early, next, gives, out, on⟩ := sift_gives each stand
  refine ⟨early, next, gives, ?_, by rwa [List.flatMap_singleton'] at on⟩
  split_ifs at out ⊢
  · rwa [List.flatMap_singleton'] at out
  · rwa [flatMap_nothing] at out

/-- What is asked after a round: whether it was the last one, and whether the paths are long
enough. -/
theorem settles (serves : Serves world d types a r range body condition) {k : Nat}
    (short : k ≤ world.store.graph.vertices.length) {stream : Stream}
    (stand : List.Forall₂ (OnPath world.store.graph d types a r [k]) stream
      (pathsOf world.store.graph d types k)) :
    ∃ late next, Gives world (sift (along body condition range).settle stream)
        (.ok (late, next)) ∧
      List.Forall₂ (OnPath world.store.graph d types a r []) late
        (if range.max.any (· ≤ k) ∨ range.min ≠ 0 ∧ range.min ≤ k
          then pathsOf world.store.graph d types k else []) ∧
      List.Forall₂ (OnPath world.store.graph d types a r [k]) next
        (if range.max.any (· ≤ k) then [] else pathsOf world.store.graph d types k) := by
  have each : ∀ t m, OnPath world.store.graph d types a r [k] t m → ∃ out on,
      Gives world ((along body condition range).settle t) (.ok (out, on)) ∧
        List.Forall₂ (OnPath world.store.graph d types a r []) out
          (if range.max.any (· ≤ k) ∨ range.min ≠ 0 ∧ range.min ≤ k then [m] else []) ∧
        List.Forall₂ (OnPath world.store.graph d types a r [k]) on
          (if range.max.any (· ≤ k) then [] else [m]) := by
    intro t m on
    have count : t.loopCount = k := by rw [Traverser.loopCount, on.1.loops]; rfl
    have settled := settle_gives body (serves.counts t (count ▸ short))
    rw [count] at settled
    refine ⟨_, _, settled, ?_, ?_⟩
    · split
      · exact .cons on.left .nil
      · exact .nil
    · split
      · exact .nil
      · exact .cons on .nil
  obtain ⟨late, next, gives, out, on⟩ := sift_gives each stand
  refine ⟨late, next, gives, ?_, ?_⟩
  · split_ifs at out ⊢
    · rwa [List.flatMap_singleton'] at out
    · rwa [flatMap_nothing] at out
  · split_ifs at on ⊢
    · rwa [flatMap_nothing] at on
    · rwa [List.flatMap_singleton'] at on

theorem rounds_nothing (limit left : Nat) {k : Nat} {stream : Stream}
    (nothing : pathsOf world.store.graph d types k = [])
    (stand : List.Forall₂ (OnPath world.store.graph d types a r [k]) stream
      (pathsOf world.store.graph d types k)) :
    ∃ out, Gives world ((along body condition range).rounds limit left stream) (.ok out) ∧
      List.Forall₂ (OnPath world.store.graph d types a r []) out
        ((if range.min = 0 then pathsOf world.store.graph d types k else []) ++
          pathsFrom world.store.graph d types range (k + 1)) := by
  rw [nothing, List.forall₂_nil_right_iff] at stand
  rw [stand, nothing, ite_self, pathsFrom_eq_nil nothing]
  exact ⟨[], rounds_nil _ limit left, .nil⟩

/-- The rounds from the paths of one length on: all paths come out whose lengths are in the range,
those of this length at once or not at all. The rounds that are left suffice for the longest path. -/
theorem rounds_walk (consistent : world.store.graph.Consistent) (limit : Nat)
    (serves : Serves world d types a r range body condition)
    (ordered : ∀ most ∈ range.max, range.min ≤ most) {left k : Nat} {stream : Stream}
    (stand : List.Forall₂ (OnPath world.store.graph d types a r [k]) stream
      (pathsOf world.store.graph d types k))
    (enough : world.store.graph.vertices.length ≤ k + left)
    (before : ∀ most ∈ range.max, k < most) :
    ∃ out, Gives world ((along body condition range).rounds limit left stream) (.ok out) ∧
      List.Forall₂ (OnPath world.store.graph d types a r []) out
        ((if range.min = 0 then pathsOf world.store.graph d types k else []) ++
          pathsFrom world.store.graph d types range (k + 1)) := by
  induction left generalizing k stream with
  | zero => exact rounds_nothing limit 0 (pathsOf_eq_nil consistent enough) stand
  | succ left ih =>
      by_cases nothing : pathsOf world.store.graph d types k = []
      · exact rounds_nothing limit (left + 1) nothing stand
      have inside : k < world.store.graph.vertices.length := by
        by_contra outside
        exact nothing (pathsOf_eq_nil consistent (Nat.le_of_not_lt outside))
      obtain ⟨early, next, gives, out, on⟩ := stays body condition range stand
      have more : next.isEmpty = false := by
        rw [List.isEmpty_eq_false_iff]
        rintro rfl
        exact nothing (List.forall₂_nil_left_iff.mp on)
      obtain ⟨produced, passed, longer⟩ := passes serves on
      obtain ⟨late, onward, settled, outLate, goes⟩ := settles serves inside longer
      have rest : ∃ others, Gives world ((along body condition range).rounds limit left onward)
          (.ok others) ∧ List.Forall₂ (OnPath world.store.graph d types a r []) (late ++ others)
            (pathsFrom world.store.graph d types range (k + 1)) := by
        by_cases done : range.max.any (· ≤ k + 1) = true
        · obtain ⟨most, bound, last⟩ := (Option.any_eq_true _ _).mp done
          have length : most = k + 1 :=
            Nat.le_antisymm (by simpa using last) (before most bound)
          rw [if_pos done, List.forall₂_nil_right_iff] at goes
          rw [if_pos (.inl done)] at outLate
          rw [goes, pathsFrom_last consistent (length ▸ ordered most bound) (length ▸ bound)]
          exact ⟨[], rounds_nil _ limit left, by rwa [List.append_nil]⟩
        · have later : ∀ most ∈ range.max, k + 1 < most := by
            intro most bound
            by_contra reached
            exact done ((Option.any_eq_true _ _).mpr ⟨most, bound, by simpa using reached⟩)
          rw [if_neg done] at goes
          rw [if_congr (or_iff_right done) rfl rfl] at outLate
          obtain ⟨others, givesRest, outRest⟩ := ih goes (by omega) later
          refine ⟨others, givesRest, ?_⟩
          rw [pathsFrom_before consistent fun most bound => Nat.le_of_lt (later most bound)]
          by_cases zero : range.min = 0
          · rw [if_pos zero] at outRest
            rw [if_neg fun both => both.1 zero, List.forall₂_nil_right_iff] at outLate
            rw [outLate, List.nil_append, if_pos (by omega)]
            exact outRest
          · rw [if_neg zero, List.nil_append] at outRest
            rw [if_congr (and_iff_right zero) rfl rfl] at outLate
            exact List.rel_append outLate outRest
      obtain ⟨others, givesRest, outRest⟩ := rest
      refine ⟨early ++ (late ++ others), ?_, List.rel_append out outRest⟩
      rw [rounds]
      refine gives.bind_ok ?_
      simp only [more, Bool.false_eq_true, if_false]
      refine passed.bind_ok (settled.bind_ok (givesRest.bind_ok ?_))
      rw [List.append_nil, List.append_assoc]
      exact Gives.pure _

end Cypher

end PropertyGraph
