import PropertyGraph.Proofs.Cypher.Courses
import PropertyGraph.Proofs.Cypher.WriteSoundness
import PropertyGraph.Proofs.Graph.Removal

/-!
The DELETE clause. Elements are dropped row by row, for one variable after another; an element that
is dropped again, or has gone with a vertex before, does no harm.
-/

namespace PropertyGraph

open Exec Plan
open Application (parts)

/-- The world after elements were dropped one after another. -/
def World.dropping (world : World) (values : List Value) : World :=
  values.foldl (fun w v =>
    { w with store := { w.store with graph := w.store.graph.discard v }.countDrop }) world

namespace World

variable {world : World}

theorem dropping_append (world : World) (first second : List Value) :
    world.dropping (first ++ second) = (world.dropping first).dropping second :=
  List.foldl_append

theorem dropping_graph (world : World) (values : List Value) :
    (world.dropping values).store.graph = values.foldl Graph.discard world.store.graph := by
  induction values generalizing world with
  | nil => rfl
  | cons v rest ih => exact ih _

theorem dropping_sideEffects (world : World) (values : List Value) :
    (world.dropping values).sideEffects = world.sideEffects := by
  induction values generalizing world with
  | nil => rfl
  | cons v rest ih => exact ih _

end World

/-- The elements that a name stands for in a row. -/
def Traverser.elements (b : Cypher.Bindings) (t : Traverser) (name : String) : List Value :=
  (t.valuation b name).toList.flatMap parts

/-- The elements that some names stand for in some row. -/
def Cypher.boundElements (b : Cypher.Bindings) (names : List String) (stream : Stream) :
    List Value :=
  stream.flatMap fun t => names.flatMap (t.elements b)

theorem Application.drop_run (a : Application) {stream : Stream}
    (elements : ∀ t ∈ stream, ∃ kind : NameKind, kind.Holds t.object) (world : World) :
    (a.drop stream).run world = (.ok [], world.dropping (objects stream)) := by
  induction stream generalizing world with
  | nil => rfl
  | cons t rest ih =>
      have one : (a.dropOne t).run world = (.ok (), world.dropping [t.object]) := by
        obtain ⟨kind, holds⟩ := elements t List.mem_cons_self
        unfold Application.dropOne
        cases kind with
        | node =>
            obtain ⟨v, same⟩ := holds
            rw [same]
            rfl
        | _ =>
            obtain ⟨e, same⟩ := holds
            rw [same]
            rfl
      have others := ih (fun u later => elements u (List.mem_cons_of_mem _ later))
        (world.dropping [t.object])
      rw [Application.drop, forEach, runs_bind]
      refine ⟨[], _, runs_bind.mpr ⟨(), _, one, rfl⟩, runs_bind.mpr ⟨[], _, others, ?_⟩⟩
      rw [← World.dropping_append]
      rfl

namespace Cypher

open Script

variable {b : Bindings} {t : Traverser} {name : String} {kind at_ : NameKind}

theorem elements_hold (stands : t.Stands b at_) (declared : Dictionary.get? name b = some kind) :
    ∀ v ∈ t.elements b name, kind.Holds v := by
  intro v member
  obtain ⟨whole, found, part⟩ := List.mem_flatMap.mp member
  have found := Option.mem_toList.mp found
  cases kind with
  | relationships =>
      have all : t.valuation b name = some (.list (t.labelled name)) := by
        simp [Traverser.valuation, Environment.onPath, declared]
      cases all.symm.trans found
      exact stands.sorted.labelled declared part
  | _ =>
      have last : t.valuation b name = (t.labelled name).getLast? := by
        simp [Traverser.valuation, Environment.onPath, declared]
      obtain ⟨ref, same⟩ :=
        stands.sorted.labelled declared (List.mem_of_getLast? (last.symm.trans found))
      rw [same] at part
      exact ⟨ref, List.mem_singleton.mp part⟩

theorem elements_eq {v : Value} (bound : t.valuation b name = some v) :
    t.elements b name = parts v := by
  simp [Traverser.elements, bound]

/-- The operations drop what a name stands for in a row. -/
def Drops (b : Bindings) (name : String) (operations : Ops) : Prop :=
  ∃ stages, Builds operations stages ∧ ∀ (engine : Engine) (world : World) (t : Traverser),
    t.Stands b .node → world.sideEffects = [] → ∃ out,
      (runStages engine stages [t]).run world = (.ok out, world.dropping (t.elements b name))

theorem drop_drops {operations : Ops} {stages : List Stage} (builds : Builds operations stages)
    (declared : Dictionary.get? name b = some kind)
    (leads : ∀ (engine : Engine) (world : World) (t : Traverser), t.Stands b .node →
      world.sideEffects = [] → ∃ out, Gives world (runStages engine stages [t]) (.ok out) ∧
        objects out = t.elements b name) :
    Drops b name (operations ++ [.append .drop []]) := by
  refine ⟨_, builds.append (Builds.step .drop ⟨rfl, by decide⟩ rfl [] rfl), ?_⟩
  intro engine world t stands quiet
  obtain ⟨out, gives, same⟩ := leads engine world t stands quiet
  have hold := elements_hold stands declared
  rw [← same] at hold
  have elements : ∀ u ∈ out, ∃ kind : NameKind, kind.Holds u.object := fun u member =>
    ⟨kind, hold u.object (List.mem_map_of_mem member)⟩
  have dropped := Application.drop_run ⟨.drop, [], [], []⟩ elements world
  rw [same] at dropped
  rw [runStages_append]
  refine ⟨[], runs_bind.mpr ⟨out, world, gives, ?_⟩⟩
  rw [runStages_one]
  exact dropped

theorem select_drops (declared : Dictionary.get? name b = some kind)
    (single : kind ≠ .relationships) : Drops b name ([.select [name]] ++ [.append .drop []]) := by
  obtain ⟨stages, builds, leads⟩ := select_leads .node declared single
  refine drop_drops builds declared fun engine world t stands quiet => ?_
  obtain ⟨v, bound, holds, gives⟩ := leads stands quiet
  refine ⟨[t.split v], gives, ?_⟩
  rw [elements_eq bound]
  cases kind with
  | relationships => exact absurd rfl single
  | _ =>
      obtain ⟨ref, rfl⟩ := holds
      rfl

theorem selectAll_drops (declared : Dictionary.get? name b = some .relationships) :
    Drops b name ([.selectLabel .all name, .append .unfold []] ++ [.append .drop []]) := by
  obtain ⟨stages, builds, leads⟩ := Leads.selectAll declared
  have unfolds := Builds.step .unfold ⟨rfl, by decide⟩ rfl [] rfl
  refine drop_drops (builds.append unfolds) declared fun engine world t stands quiet => ?_
  have covers := stands.knows.covers quiet
  obtain ⟨out, gives, u, rfl, object⟩ := leads engine world t covers
  have bound : t.valuation b name = some (.list (t.labelled name)) := by
    simp [Traverser.valuation, Environment.onPath, declared]
  have seen : (Environment.seenFrom b world t).value? name = some (.list (t.labelled name)) := by
    rw [stands.knows.seenFrom_eq quiet]
    exact bound
  rw [seen, Option.getD_some] at object
  refine ⟨(t.labelled name).map u.split, ?_, ?_⟩
  · rw [runStages_append]
    refine gives.bind_ok ?_
    rw [runStages_one]
    change Gives world (Application.unfold [u]) _
    rw [Application.unfold, forEach_one, object]
    exact .pure _
  · rw [elements_eq bound, objects, List.map_map]
    exact List.map_id _

theorem Drops.through {engine : Engine} {stages : List Stage} {stream : Stream}
    (drops : ∀ (world : World) (t : Traverser), t.Stands b .node → world.sideEffects = [] → ∃ out,
      (runStages engine stages [t]).run world = (.ok out, world.dropping (t.elements b name)))
    (stands : Standing b .node stream) {world : World} (quiet : world.sideEffects = []) :
    Through (fun t w w' => ∃ out, (runStages engine stages [t]).run w = (.ok out, w')) stream world
      (world.dropping (stream.flatMap fun t => t.elements b name)) := by
  induction stream generalizing world with
  | nil => exact .nil world
  | cons t rest ih =>
      obtain ⟨here, others⟩ := List.forall_mem_cons.mp stands
      have still := (world.dropping_sideEffects (t.elements b name)).trans quiet
      rw [List.flatMap_cons, World.dropping_append]
      exact .cons (drops world t here quiet) (ih others still)

/-- The operations let all rows pass, and drop some elements. -/
def DropsAll (b : Bindings) (operations : Ops) (dropped : Stream → List Value) : Prop :=
  ∃ stages, Builds operations stages ∧ ∀ (engine : Engine) (stream : Stream) (world : World),
    Standing b .node stream → world.sideEffects = [] →
      (runStages engine stages stream).run world = (.ok stream, world.dropping (dropped stream))

theorem removal_drops (declared : Dictionary.get? name b = some kind) :
    DropsAll b [removal (kind, name)] fun stream => stream.flatMap (·.elements b name) := by
  obtain ⟨operations, same, stages, builds, drops⟩ : ∃ operations,
      [removal (kind, name)] = [.nested .sideEffect [.of operations]] ∧
        Drops b name operations := by
    cases kind with
    | relationships => exact ⟨_, rfl, selectAll_drops declared⟩
    | node => exact ⟨_, rfl, select_drops declared (by decide)⟩
    | relationship => exact ⟨_, rfl, select_drops declared (by decide)⟩
  rw [same]
  obtain ⟨stage, buildsStage, runs⟩ := sideEffect_builds builds
  exact ⟨[stage], buildsStage, fun engine stream world stands quiet =>
    runs.mpr ⟨rfl, Drops.through (drops engine) stands quiet⟩⟩

theorem removals_drop {targets : List (NameKind × String)}
    (declared : ∀ target ∈ targets, Dictionary.get? target.2 b = some target.1) :
    DropsAll b (targets.map removal) fun stream =>
      targets.flatMap fun target => stream.flatMap (·.elements b target.2) := by
  induction targets with
  | nil => exact ⟨[], .nil, fun _ _ _ _ _ => rfl⟩
  | cons target rest ih =>
      obtain ⟨first, others⟩ := List.forall_mem_cons.mp declared
      obtain ⟨stages, builds, drops⟩ := removal_drops first
      obtain ⟨more, buildsMore, dropsMore⟩ := ih others
      refine ⟨stages ++ more, builds.append buildsMore, fun engine stream world stands quiet => ?_⟩
      have still :=
        (world.dropping_sideEffects (stream.flatMap (·.elements b target.2))).trans quiet
      dsimp only
      rw [runStages_append, List.flatMap_cons, World.dropping_append]
      exact runs_bind.mpr ⟨stream, _, drops engine stream world stands quiet,
        dropsMore engine stream _ stands still⟩

theorem kindsOf_names {names : List String} {targets : List (NameKind × String)}
    (compiled : kindsOf b names = .ok targets) : targets.map (·.2) = names := by
  induction names generalizing targets with
  | nil =>
      cases compiled
      rfl
  | cons name rest ih =>
      obtain ⟨kind, declared, compiled⟩ := bind_eq_ok.mp compiled
      obtain ⟨others, several, same⟩ := bind_eq_ok.mp compiled
      cases same
      rw [List.map_cons, ih several]

/-- A DELETE clause drops the elements that its names stand for, whatever their order. -/
theorem deleteOps_drop {d : DeleteClause} {operations : Ops}
    (compiled : deleteOps b d = .ok operations) :
    ∃ dropped, DropsAll b operations dropped ∧
      ∀ stream v, v ∈ dropped stream ↔ v ∈ boundElements b d.names stream := by
  obtain ⟨targets, found, compiled⟩ := bind_eq_ok.mp compiled
  rw [List.partition_eq_filter_filter] at compiled
  cases compiled
  refine ⟨_, removals_drop fun target member => kindsOf_declared found target ?_,
    fun stream v => ?_⟩
  · exact (List.mem_append.mp member).elim List.mem_of_mem_filter List.mem_of_mem_filter
  · -- the two filters split the targets, and the targets are the names
    have either (target : NameKind × String) : target ∈ targets.filter (not ∘ (·.1 == .node)) ++
        targets.filter (·.1 == .node) ↔ target ∈ targets := by
      by_cases node : target.1 = .node <;> simp [node]
    simp only [List.mem_flatMap, either, boundElements, ← kindsOf_names found, List.mem_map]
    constructor
    · rintro ⟨target, listed, t, row, member⟩
      exact ⟨t, row, target.2, ⟨target, listed, rfl⟩, member⟩
    · rintro ⟨t, row, _, ⟨target, listed, rfl⟩, member⟩
      exact ⟨target, listed, t, row, member⟩

end Cypher

end PropertyGraph
