import PropertyGraph.Cypher.Query
import PropertyGraph.Proofs.Graph.Consistency
import PropertyGraph.Proofs.Run.Single

/-!
Steps that replace each traverser by those that it leads to. Traversers are described by states of
any kind; a list of stages is described by what it makes of one state, so stages that follow each
other are described by what the first makes of a state and the next of each result.
-/

namespace PropertyGraph

open Exec

namespace Traverser

theorem labelled_split (t : Traverser) (v : Value) (name : String) :
    (t.split v).labelled name = t.labelled name := by
  simp [labelled, split]

theorem labelled_addLabel_of_ne (t : Traverser) {label name : String} (other : name ≠ label) :
    (t.addLabel label).labelled name = t.labelled name := by
  by_cases present : label ∈ t.here.labels
  · simp [addLabel, present]
  · by_cases known : name ∈ t.here.labels <;> simp [labelled, addLabel, present, other, known]

theorem last_addLabel (t : Traverser) (label : String) :
    ((t.addLabel label).labelled label).getLast? = some t.object := by
  by_cases present : label ∈ t.here.labels <;> simp [labelled, addLabel, present, object]

theorem object_addLabel (t : Traverser) (label : String) :
    (t.addLabel label).object = t.object := by
  unfold addLabel
  split <;> rfl

theorem past_addLabel (t : Traverser) (label : String) : (t.addLabel label).past = t.past := by
  unfold addLabel
  split <;> rfl

end Traverser

variable {α β γ : Type} {engine : Engine} {world : World} {R : Traverser → α → Prop}
  {S : Traverser → β → Prop} {T : Traverser → γ → Prop}

/-- Traversers that stand for states lead to traversers that stand for what each state becomes, and
the world stays as it is. -/
def Expands (engine : Engine) (world : World) (R : Traverser → α → Prop) (stages : List Stage)
    (f : α → List β) (S : Traverser → β → Prop) : Prop :=
  ∀ (stream : Stream) (states : List α), List.Forall₂ R stream states →
    ∃ out, Gives world (Plan.runStages engine stages stream) (.ok out) ∧
      List.Forall₂ S out (states.flatMap f)

namespace Expands

/-- What holds of all that come out, whatever they stand for. -/
theorem all {stages : List Stage} {f : α → List β} {P : Traverser → Prop}
    (expands : Expands engine world R stages f fun t _ => P t) {stream : Stream} {states : List α}
    (stand : List.Forall₂ R stream states) :
    ∃ out, Gives world (Plan.runStages engine stages stream) (.ok out) ∧ ∀ t ∈ out, P t := by
  obtain ⟨out, gives, arrived⟩ := expands stream states stand
  refine ⟨out, gives, ?_⟩
  clear gives
  generalize states.flatMap f = become at arrived
  induction arrived with
  | nil => exact List.forall_mem_nil _
  | cons holds _ ih => exact List.forall_mem_cons.mpr ⟨holds, ih⟩

theorem forEach {h : Traverser → Exec Stream} {f : α → List β}
    (each : ∀ t a, R t a → ∃ out, Gives world (h t) (.ok out) ∧ List.Forall₂ S out (f a))
    {stream : Stream} {states : List α} (stand : List.Forall₂ R stream states) :
    ∃ out, Gives world (Exec.forEach h stream) (.ok out) ∧
      List.Forall₂ S out (states.flatMap f) := by
  induction stand with
  | nil => exact ⟨[], Gives.pure _, .nil⟩
  | @cons t a stream states first _ ih =>
      obtain ⟨out, gives, reached⟩ := each t a first
      obtain ⟨more, givesMore, reachedMore⟩ := ih
      refine ⟨out ++ more, ?_, List.rel_append reached reachedMore⟩
      exact gives.bind_ok (givesMore.bind_ok (Gives.pure _))

theorem nil : Expands engine world R [] (fun a => [a]) R := by
  intro stream states stand
  refine ⟨stream, Gives.pure _, ?_⟩
  rwa [List.flatMap_singleton']

theorem append {first second : List Stage} {f : α → List β} {g : β → List γ}
    (expands : Expands engine world R first f S) (next : Expands engine world S second g T) :
    Expands engine world R (first ++ second) (fun a => (f a).flatMap g) T := by
  intro stream states stand
  obtain ⟨middle, gives, reached⟩ := expands _ _ stand
  obtain ⟨out, givesNext, reachedNext⟩ := next _ _ reached
  refine ⟨out, ?_, ?_⟩
  · rw [Plan.runStages_append]
    exact gives.bind_ok givesNext
  · rwa [← List.flatMap_assoc]

theorem map {stages : List Stage} {f : α → List β} (expands : Expands engine world R stages f S)
    (g : β → γ) (stands : ∀ t b, S t b → T t (g b)) :
    Expands engine world R stages (fun a => (f a).map g) T := by
  intro stream states stand
  obtain ⟨out, gives, reached⟩ := expands _ _ stand
  refine ⟨out, gives, ?_⟩
  rw [← List.map_flatMap, List.forall₂_map_right_iff]
  exact reached.imp stands

theorem congr {stages : List Stage} {f g : α → List β} (expands : Expands engine world R stages f S)
    (same : ∀ t a, R t a → f a = g a) : Expands engine world R stages g S := by
  intro stream states stand
  obtain ⟨out, gives, reached⟩ := expands _ _ stand
  refine ⟨out, gives, ?_⟩
  have equal : states.flatMap f = states.flatMap g := by
    clear gives reached
    induction stand with
    | nil => rfl
    | cons first _ ih => rw [List.flatMap_cons, List.flatMap_cons, same _ _ first, ih]
  rwa [← equal]

theorem knowing {stages : List Stage} {f : α → List β} {S' : Traverser → β → Prop}
    (expands : Expands engine world R stages f S)
    (implies : ∀ u a, R u a → ∀ t, ∀ b ∈ f a, S t b → S' t b) :
    Expands engine world R stages f S' := by
  intro stream states stand
  obtain ⟨out, gives, reached⟩ := expands _ _ stand
  refine ⟨out, gives, ?_⟩
  have known : ∀ b ∈ states.flatMap f, ∀ t, S t b → S' t b := by
    clear gives reached
    induction stand with
    | nil => exact nofun
    | cons first _ ih =>
        intro b member t stands
        rcases List.mem_append.mp member with here | later
        · exact implies _ _ first t b here stands
        · exact ih b later t stands
  clear gives stand
  generalize states.flatMap f = after at known reached ⊢
  induction reached with
  | nil => exact .nil
  | cons first _ ih =>
      refine .cons (known _ List.mem_cons_self _ first) (ih fun b later => ?_)
      exact known b (List.mem_cons_of_mem _ later)

theorem each {stage : Stage} {h : Traverser → Exec Stream} {f : α → List β}
    (runs : ∀ stream, Plan.runStage engine stage stream = Exec.forEach h stream)
    (one : ∀ t a, R t a → ∃ out, Gives world (h t) (.ok out) ∧ List.Forall₂ S out (f a)) :
    Expands engine world R [stage] f S := by
  intro stream states stand
  rw [Plan.runStages_one, runs]
  exact forEach one stand

theorem move {stage : Stage} {h : Traverser → Exec Value} {f : α → List β}
    (runs : ∀ stream, Plan.runStage engine stage stream = Exec.mapEach h stream)
    (one : ∀ t a, R t a → ∃ v b, Gives world (h t) (.ok v) ∧ f a = [b] ∧ S (t.split v) b) :
    Expands engine world R [stage] f S := by
  refine each runs fun t a stands => ?_
  obtain ⟨v, b, gives, only, reached⟩ := one t a stands
  rw [only]
  exact ⟨[t.split v], gives.bind_ok (Gives.pure _), .cons reached .nil⟩

theorem keep {stage : Stage} {test : Traverser → Exec Bool} {wanted : α → Bool}
    (runs : ∀ stream, Plan.runStage engine stage stream = Exec.keep test stream)
    (one : ∀ t a, R t a → Gives world (test t) (.ok (wanted a))) :
    Expands engine world R [stage] (fun a => if wanted a then [a] else []) R := by
  refine each runs fun t a stands => ⟨if wanted a then [t] else [], ?_, ?_⟩
  · exact (one t a stands).bind_ok (Gives.pure _)
  · cases wanted a
    · exact .nil
    · exact .cons stands .nil

theorem filters {ι : Type} {stage : ι → Stage} {wanted : ι → α → Bool} {indices : List ι}
    (one : ∀ i ∈ indices,
      Expands engine world R [stage i] (fun a => if wanted i a then [a] else []) R) :
    Expands engine world R (indices.map stage)
      (fun a => if indices.all fun i => wanted i a then [a] else []) R := by
  induction indices with
  | nil => exact nil.congr fun _ _ _ => by simp
  | cons i rest ih =>
      have others := ih fun j later => one j (List.mem_cons_of_mem _ later)
      refine (Expands.append (one i List.mem_cons_self) others).congr fun _ a _ => ?_
      cases passed : wanted i a <;> simp [passed]

end Expands

theorem Plan.run_rooted {stages : List Stage} {result : Except ExecutionFault Stream}
    (gives : Gives world (Plan.runStages engine stages
      (world.store.graph.vertices.map fun v => .start (.vertex v.ref))) result) :
    Gives world (Plan.run engine (.mk (.vertices :: stages) []) []) result := by
  have started : Gives world (Plan.runStage engine .vertices [])
      (.ok (world.store.graph.vertices.map fun v => .start (.vertex v.ref))) :=
    Gives.graph.bind_ok (Gives.pure _)
  exact started.bind_ok gives

/-- A step without sub-traversals and modulators. -/
abbrev Stage.bare (kind : StepKind) (arguments : List Argument) : Stage :=
  .apply (.mk kind arguments) [] []

namespace Cypher

def edgeKind : Direction → StepKind
  | .outgoing => .outE
  | .incoming => .inE
  | .both => .bothE

def vertexKind : Direction → StepKind
  | .outgoing => .inV
  | .incoming => .outV
  | .both => .otherV

end Cypher

namespace Direction

/-- The edges that leave a vertex in a direction. -/
def edgesAt (d : Direction) (g : Graph) (id : VertexId) : List Edge :=
  match d with
  | .outgoing => g.edgesFrom id
  | .incoming => g.edgesInto id
  | .both => g.edgesFrom id ++ g.edgesInto id

/-- The end of an edge that lies ahead of a traverser. -/
def ahead (d : Direction) (e : EdgeRef) (t : Traverser) : VertexId :=
  match d with
  | .outgoing => e.target
  | .incoming => e.source
  | .both => Application.otherEnd e t

end Direction

/-- No type asked for, or one of those. -/
def ofTypes (types : List String) (e : Edge) : Bool := types.isEmpty || types.contains e.label

namespace Expands

open Cypher

theorem as_ {name : String} {f : α → β} (one : ∀ t a, R t a → S (t.addLabel name) (f a)) :
    Expands engine world R [.bare .as_ [.label name]] (fun a => [f a]) S := by
  intro stream states stand
  refine ⟨stream.map fun t => t.addLabel name, Gives.pure _, ?_⟩
  rw [← List.map_eq_flatMap, List.forall₂_map_left_iff, List.forall₂_map_right_iff]
  exact stand.imp fun t a => one t a

theorem hasLabel {labelOf : α → String} (stands : ∀ t a, R t a →
    t.object.elementLabel? = some (labelOf a)) (label : String) :
    Expands engine world R [.bare .hasLabel [.label label]]
      (fun a => if labelOf a == label then [a] else []) R := by
  refine keep (fun stream => rfl) fun t a standing => ?_
  have found := stands t a standing
  have same : (t.object.elementLabel?).any [label].contains = (labelOf a == label) := by
    rw [found, Option.any_some, List.contains_cons, List.contains_nil, Bool.or_false]
  change Gives world (pure ((t.object.elementLabel?).any [label].contains)) _
  rw [same]
  exact Gives.pure _

theorem has {propertiesOf : α → Properties} {key : String} (known : ∀ t a, R t a →
    Gives world (property? t.object key) (.ok (Dictionary.get? key (propertiesOf a))))
    (p : Predicate) :
    Expands engine world R [.bare .has [.label key, .predicate p]]
      (fun a => if (Dictionary.get? key (propertiesOf a)).any p.test then [a] else []) R := by
  refine keep (fun stream => rfl) fun t a standing => ?_
  refine (known t a standing).bind_ok ?_
  cases Dictionary.get? key (propertiesOf a) with
  | none => exact Gives.pure _
  | some v => exact Gives.pure _

theorem vertices {f : α → Vertex → β} (one : ∀ t a, R t a → ∀ v ∈ world.store.graph.vertices,
    S (t.split (.vertex v.ref)) (f a v)) :
    Expands engine world R [.bare .v []] (fun a => world.store.graph.vertices.map (f a)) S := by
  refine each (fun stream => rfl) fun t a standing => ?_
  refine ⟨world.store.graph.vertices.map fun v => t.split (.vertex v.ref),
    Gives.graph.bind_ok (Gives.pure _), ?_⟩
  rw [List.forall₂_map_left_iff, List.forall₂_map_right_iff, List.forall₂_same]
  exact one t a standing

theorem edges {d : Direction} {types : List String} {here : α → Vertex} {f : α → Edge → β}
    (stands : ∀ t a, R t a → t.object = .vertex (here a).ref)
    (one : ∀ t a, R t a → ∀ e ∈ d.edgesAt world.store.graph (here a).id,
      S (t.split (.edge e.ref)) (f a e)) :
    Expands engine world R [.bare (edgeKind d) (types.map .label)]
      (fun a => ((d.edgesAt world.store.graph (here a).id).filter (ofTypes types)).map (f a))
      S := by
  have labels : Arguments.labels (types.map .label) = types := by
    simp [Arguments.labels, List.filterMap_map]
  have runs : ∀ stream, Plan.runStage engine (.bare (edgeKind d) (types.map .label)) stream =
      Exec.forEach (fun t => do
        let id ← vertexIdOf t.object
        let found := d.edgesAt (← graph) id
        return (found.filter (ofTypes types)).map fun e => t.split (.edge e.ref)) stream := by
    intro stream
    unfold ofTypes
    conv_rhs => rw [← labels]
    cases d <;> rfl
  refine each runs fun t a standing => ?_
  refine ⟨((d.edgesAt world.store.graph (here a).id).filter (ofTypes types)).map
    fun e => t.split (.edge e.ref), ?_, ?_⟩
  · rw [stands t a standing]
    exact (Gives.pure (here a).id).bind_ok (Gives.graph.bind_ok (Gives.pure _))
  · rw [List.forall₂_map_left_iff, List.forall₂_map_right_iff, List.forall₂_same]
    intro e member
    exact one t a standing e (List.mem_filter.mp member).1

theorem runStage_ahead (d : Direction) (stream : Stream) :
    Plan.runStage engine (.bare (vertexKind d) []) stream =
      Exec.mapEach (fun t =>
        match t.object with
        | .edge e => vertexValue (d.ahead e t)
        | other => Application.inapplicable ⟨vertexKind d, [], [], []⟩ other) stream := by
  cases d <;> rfl

theorem ahead {d : Direction} {f : α → List β} (one : ∀ t a, R t a → ∃ e w b,
    t.object = .edge e ∧ world.store.graph.vertex? (d.ahead e t) = some w ∧
      f a = [b] ∧ S (t.split (.vertex w.ref)) b) :
    Expands engine world R [.bare (vertexKind d) []] f S := by
  refine move (runStage_ahead d) fun t a standing => ?_
  obtain ⟨e, w, b, here, found, only, reached⟩ := one t a standing
  refine ⟨.vertex w.ref, b, ?_, only, reached⟩
  rw [here]
  refine Gives.graph.bind_ok ?_
  simp only [found]
  exact Gives.pure _

theorem select {name : String} {f : α → List β} (one : ∀ t a, R t a → ∃ v b,
    world.named? t .last name = some v ∧ f a = [b] ∧ S (t.split v) b) :
    Expands engine world R [.bare .select [.label name]] f S := by
  refine each (fun stream => rfl) fun t a standing => ?_
  obtain ⟨v, b, found, only, reached⟩ := one t a standing
  have keys : Gives world (Application.selectKeys [] .last t 0 [name])
      (.ok (some [(name, v)])) := by
    rw [Application.selectKeys]
    refine (Gives.named? t .last name).bind_ok ?_
    simp only [found]
    exact Gives.pure _
  rw [only]
  exact ⟨[t.split v], keys.bind_ok (Gives.pure _), .cons reached .nil⟩

theorem sameAs {name : String} {wanted : α → Bool} (one : ∀ t a, R t a → ∃ v,
    world.named? t .last name = some v ∧ (Predicate.eq v).test t.object = wanted a) :
    Expands engine world R [.bare .where_ [.predicate (.eq (.string name))]]
      (fun a => if wanted a then [a] else []) R := by
  refine keep (fun stream => rfl) fun t a standing => ?_
  obtain ⟨v, found, equal⟩ := one t a standing
  have resolves : Gives world (Application.resolved (.eq (.string name)) t) (.ok (.eq v)) := by
    change Gives world (pure (Predicate.eq ((world.named? t .last name).getD (.string name)))) _
    rw [found]
    exact Gives.pure _
  rw [← equal]
  exact resolves.bind_ok (Gives.pure _)

end Expands

end PropertyGraph
