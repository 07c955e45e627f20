import PropertyGraph.Proofs.Cypher.Courses

/-!
Steps that make an element for each row and write its properties, one after another. An element that
is being made is already in the graph, with the properties that have been written by then.
-/

namespace PropertyGraph

open Exec Plan

namespace Element

def filled (properties : Properties) : Element → Element
  | .vertex v => .vertex { v with properties }
  | .edge e => .edge { e with properties }

theorem value_filled (x : Element) (properties : Properties) :
    (x.filled properties).value = x.value := by
  cases x <;> rfl

theorem properties_filled (x : Element) (properties : Properties) :
    (x.filled properties).properties = properties := by
  cases x <;> rfl

/-- A change of the properties of the element in a graph. -/
def change (x : Element) (change : Properties → Properties) (g : Graph) :
    Except MissingElement Graph :=
  match x with
  | .vertex v => g.changeVertex v.id change
  | .edge e => g.changeEdge e.id change

end Element

namespace Exec

theorem update_runs {change : Graph → Except MissingElement Graph} {world after : World} {u : Unit}
    (ran : (update change).run world = (.ok u, after)) :
    ∃ g, change world.store.graph = .ok g ∧
      after = { world with store := { world.store with graph := g } } := by
  unfold update at ran
  obtain ⟨_, _, same, ran⟩ := runs_bind.mp ran
  cases same
  obtain ⟨g, middle, lifted, same⟩ := runs_bind.mp ran
  cases same
  cases changed : change world.store.graph with
  | error missing =>
      rw [changed] at lifted
      cases lifted
  | ok _ =>
      rw [changed] at lifted
      cases lifted
      exact ⟨_, rfl, rfl⟩

theorem createVertex_runs {label : Option String} {world after : World} {v : Value}
    (ran : (createVertex label).run world = (.ok v, after)) :
    v = .vertex ⟨⟨world.store.graph.nextVertex⟩, label.getD defaultLabel⟩ ∧
      after = { world with store := (world.store.addVertex (label.getD defaultLabel) []).2 } := by
  cases ran
  exact ⟨rfl, rfl⟩

theorem createEdge_runs {label : String} {source target : VertexId} {world after : World}
    {v : Value} (ran : (createEdge label source target).run world = (.ok v, after)) :
    ∃ id store, world.store.addEdge label source target [] = .ok (id, store) ∧
      v = .edge ⟨id, label, source, target⟩ ∧ after = { world with store } := by
  unfold createEdge at ran
  obtain ⟨_, _, same, ran⟩ := runs_bind.mp ran
  cases same
  obtain ⟨⟨id, store⟩, middle, lifted, ran⟩ := runs_bind.mp ran
  cases inserted : world.store.addEdge label source target [] with
  | error missing =>
      rw [inserted] at lifted
      cases lifted
  | ok found =>
      rw [inserted] at lifted
      cases lifted
      cases ran
      exact ⟨id, store, rfl, rfl, rfl⟩

end Exec

namespace Application

variable {a : Application} {t : Traverser} {world after : World}

theorem addV_eq {label : Option String} (arguments : a.arguments = label.toList.map .label)
    (stream : Stream) : a.addV stream = mapEach (fun _ => createVertex label) stream := by
  cases label with
  | none => simp [addV, arguments]
  | some label =>
      have text : a.text 0 = pure label := by simp [Application.text, Arguments.text, arguments]
      simp [addV, arguments, text]

theorem edgeEnd_runs {m : Modulation} {label : String} (arguments : m.arguments = [.label label])
    {id : VertexId} (ran : (edgeEnd (some m) t).run world = (.ok id, after)) :
    after = world ∧ ∃ v : VertexRef, world.named? t .last label = some (.vertex v) ∧ id = v.id := by
  have text : m.text 0 = pure label := by simp [Modulation.text, Arguments.text, arguments]
  simp only [edgeEnd, text, pure_bind] at ran
  obtain ⟨_, _, same, ran⟩ := runs_bind.mp ran
  cases same
  cases found : world.named? t .last label with
  | none =>
      rw [found] at ran
      cases ran
  | some v =>
      rw [found] at ran
      cases v <;> cases ran
      exact ⟨rfl, _, rfl, rfl⟩

theorem writeProperty_runs {cardinality : Option Cardinality} {index : Nat} {key : String}
    {value : Argument}
    (arguments : propertyArguments a.arguments = (cardinality, index, [.label key, value]))
    (single : ∀ c ∈ cardinality, c = .single) {x : Element} (here : t.object = x.value)
    {result : Except ExecutionFault Value}
    (gives : Gives world (a.valueFrom (index + 1) key t [value] a.children) result) {u : Unit}
    (ran : (a.writeProperty t).run world = (.ok u, after)) :
    ∃ v g, result = .ok v ∧ x.change (Cypher.written key v) world.store.graph = .ok g ∧
      after = { world with store := { world.store with graph := g } } := by
  unfold writeProperty at ran
  simp only [arguments, keyFrom, pure_bind, List.tail_cons] at ran
  obtain ⟨v, middle, found, ran⟩ := runs_bind.mp ran
  cases gives.symm.trans found
  have kept (old : Option Value) : stored cardinality old v = v := by
    cases cardinality with
    | none => rfl
    | some c =>
        cases single c rfl
        rfl
  rw [here] at ran
  cases unknown : v.isUnknown with
  | true =>
      have removes : Dictionary.remove key = Cypher.written key v :=
        funext fun _ => (if_pos unknown).symm
      cases x with
      | vertex w =>
          simp only [Element.value, unknown, if_true] at ran
          obtain ⟨g, changed, same⟩ := update_runs ran
          exact ⟨v, g, rfl, removes ▸ changed, same⟩
      | edge e =>
          simp only [Element.value, unknown, if_true] at ran
          obtain ⟨g, changed, same⟩ := update_runs ran
          exact ⟨v, g, rfl, removes ▸ changed, same⟩
  | false =>
      have puts : Dictionary.put key v = Cypher.written key v :=
        funext fun _ => (if_neg (by simp [unknown])).symm
      cases x with
      | vertex w =>
          simp only [Element.value, unknown, kept, Bool.false_eq_true, if_false] at ran
          obtain ⟨g, changed, same⟩ := update_runs ran
          exact ⟨v, g, rfl, puts ▸ changed, same⟩
      | edge e =>
          simp only [Element.value, unknown, Bool.false_eq_true, if_false] at ran
          obtain ⟨g, changed, same⟩ := update_runs ran
          exact ⟨v, g, rfl, puts ▸ changed, same⟩

end Application

namespace Cypher

variable {before : Graph} {b : Bindings} {parts : List Part} {part : Part}
  {entries : List (String × Expression)} {scope : Scope}

namespace Stocked

variable {front back : List Course} {c : Course} {world : World}

theorem addVertex (stocked : Stocked before (front ++ c :: back) world) (label : String) :
    Stocked before (front ++ ⟨c.entered, c.made.holding
        (.vertex ⟨⟨world.store.graph.nextVertex⟩, label, []⟩)⟩ :: back)
      { world with store := (world.store.addVertex label []).2 } := by
  have grown := stocked.grown
  simp only [List.flatMap_append, List.flatMap_cons, ← List.append_assoc] at grown
  have added := Graph.Grown.addVertex grown label
  refine ⟨stocked.quiet, ?_⟩
  change before.Grown _ _ (world.store.graph.addVertex label []).2
  simpa [Made.holding] using added

theorem addEdge (stocked : Stocked before (front ++ c :: back) world) {label : String}
    {source target : VertexId} {id : EdgeId} {store : Store}
    (made : world.store.addEdge label source target [] = .ok (id, store)) :
    Stocked before (front ++ ⟨c.entered, c.made.holding
        (.edge ⟨id, label, source, target, []⟩)⟩ :: back) { world with store } := by
  obtain ⟨⟨_, g⟩, inserted, same⟩ := bind_eq_ok.mp made
  cases same
  have grown := stocked.grown
  simp only [List.flatMap_append, List.flatMap_cons, ← List.append_assoc] at grown
  have added := Graph.Grown.addEdge grown inserted
  refine ⟨stocked.quiet, ?_⟩
  simpa [Made.holding] using added

theorem change (stocked : Stocked before (front ++ c :: back) world) {made : Made} {x : Element}
    (open_ : c.made = made.holding x) {change : Properties → Properties} {g : Graph}
    (changed : x.change change world.store.graph = .ok g) :
    Stocked before
      (front ++ ⟨c.entered, made.holding (x.filled (change x.properties))⟩ :: back)
      { world with store := { world.store with graph := g } } := by
  have grown := stocked.grown
  refine ⟨stocked.quiet, ?_⟩
  cases x with
  | vertex v =>
      simp only [List.flatMap_append, List.flatMap_cons, open_, Made.holding] at grown
      have same : front.flatMap (·.made.vertices) ++ (made.vertices ++ [v] ++
          back.flatMap (·.made.vertices)) = (front.flatMap (·.made.vertices) ++ made.vertices) ++
          v :: back.flatMap (·.made.vertices) := by simp
      rw [same] at grown
      simpa [Made.holding, Element.filled, Element.properties] using grown.changeVertex changed
  | edge e =>
      simp only [List.flatMap_append, List.flatMap_cons, open_, Made.holding] at grown
      have same : front.flatMap (·.made.edges) ++ (made.edges ++ [e] ++
          back.flatMap (·.made.edges)) = (front.flatMap (·.made.edges) ++ made.edges) ++
          e :: back.flatMap (·.made.edges) := by simp
      rw [same] at grown
      simpa [Made.holding, Element.filled, Element.properties] using grown.changeEdge changed

end Stocked

theorem Part.Describes.filled {row : Valuation} {made : Made} {x : Element}
    (describes : part.Describes row made x) (properties : Properties) :
    part.Describes row made (x.filled properties) := by
  cases describes with
  | node label => exact .node label
  | edge label starts leaves ends enters => exact .edge label starts leaves ends enters

/-- The traverser of a row stands at an element that is being made, some entries of which have been
written. -/
structure Opened (b : Bindings) (before : Graph) (parts : List Part) (part : Part)
    (entries : List (String × Expression)) (made : Made) (x : Element) (t : Traverser)
    (c : Course) : Prop where
  open_ : c.made = made.holding x
  follows : Follows b before parts t ⟨c.entered, made⟩
  here : t.here = ⟨[], x.value⟩
  describes : part.Describes (c.entered.valuation b) made x
  fills : Fills (made.Evaluates before (c.entered.valuation b)) entries x.properties

/-- A part is being made, after others. -/
def Opens (b : Bindings) (before : Graph) (parts : List Part) (part : Part)
    (entries : List (String × Expression)) (t : Traverser) (c : Course) : Prop :=
  ∃ made x, Opened b before parts part entries made x t c

theorem Follows.opens {t : Traverser} {entered : Traverser} {made : Made}
    (follows : Follows b before parts t ⟨entered, made⟩) {x : Element}
    (describes : part.Describes (entered.valuation b) made x) (bare : x.properties = []) :
    Opens b before parts part [] (t.split x.value) ⟨entered, made.holding x⟩ :=
  ⟨made, x, rfl, ⟨follows.tracks.split (Element.map?_value x), follows.makes⟩, rfl, describes,
    bare ▸ .nil⟩

theorem addV_advances (anchor : Anchor) (pattern : NodePattern) :
    Advances before (Follows b before parts)
      (fun t => do return [t.split (← createVertex pattern.labels.head?)])
      (Opens b before parts (.node anchor pattern) []) := by
  intro t c follows front back world stocked out after ran
  obtain ⟨_, _, creates, same⟩ := runs_bind.mp ran
  cases same
  obtain ⟨rfl, rfl⟩ := createVertex_runs creates
  have opens : Opens b before parts (.node anchor pattern) [] _ _ :=
    follows.opens (x := .vertex ⟨⟨world.store.graph.nextVertex⟩,
      pattern.labels.head?.getD defaultLabel, []⟩) (.node rfl) rfl
  refine ⟨_, ⟨c.entered, _⟩, ?_, ?_, opens, stocked.addVertex _⟩ <;> rfl

def edgeBetween (from_ to_ : Modulation) (label : String) (t : Traverser) : Exec Value := do
  let source ← Application.edgeEnd (some from_) t
  let target ← Application.edgeEnd (some to_) t
  createEdge label source target

theorem addE_advances {source target : Anchor} {pattern : RelationshipPattern} {label : String}
    (types : pattern.types = [label])
    (declares : Declares b (parts.filterMap Part.anchor?) scope)
    (starts : Nameable scope (parts.filterMap Part.anchor?) source)
    (ends : Nameable scope (parts.filterMap Part.anchor?) target) (from_ to_ : Modulation)
    (fromLabel : from_.arguments = [.label source.label])
    (toLabel : to_.arguments = [.label target.label]) :
    Advances before (Follows b before parts)
      (fun t => do return [t.split (← edgeBetween from_ to_ label t)])
      (Opens b before parts (.edge source target pattern) []) := by
  intro t c follows front back world stocked out after ran
  obtain ⟨_, _, made, same⟩ := runs_bind.mp ran
  cases same
  obtain ⟨v, _, one, made⟩ := runs_bind.mp made
  obtain ⟨rfl, left, isLeft, rfl⟩ := Application.edgeEnd_runs fromLabel one
  obtain ⟨w, _, two, creates⟩ := runs_bind.mp made
  obtain ⟨rfl, right, isRight, rfl⟩ := Application.edgeEnd_runs toLabel two
  obtain ⟨id, store, inserted, rfl, rfl⟩ := createEdge_runs creates
  rw [follows.named?_anchor declares stocked.quiet starts] at isLeft
  rw [follows.named?_anchor declares stocked.quiet ends] at isRight
  have opens := follows.opens (x := .edge ⟨id, label, left.id, right.id, []⟩)
    (.edge types isLeft rfl isRight rfl) rfl
  refine ⟨_, ⟨c.entered, _⟩, ?_, ?_, opens, stocked.addEdge inserted⟩ <;> rfl

theorem write_advances {a : Application} {cardinality : Option Cardinality} {index : Nat}
    {key : String} {value : Argument} {e : Expression} (known : e.literal? ≠ some .null)
    (arguments : Application.propertyArguments a.arguments =
      (cardinality, index, [.label key, value])) (single : ∀ c ∈ cardinality, c = .single)
    (gives : ∀ {t entered made world}, Follows b before parts t ⟨entered, made⟩ →
      world.sideEffects = [] →
        Gives world (a.valueFrom (index + 1) key t [value] a.children)
          (e.evaluate ⟨world.store.graph,
            fun name => made.value? (entered.valuation b) (.named name)⟩)) :
    Advances before (Opens b before parts part entries)
      (fun t => do
        a.writeProperty t
        return [t])
      (Opens b before parts part (entries ++ [(key, e)])) := by
  rintro t c ⟨made, x, opened⟩ front back world stocked out after ran
  obtain ⟨_, _, writes, same⟩ := runs_bind.mp ran
  cases same
  have here : t.object = x.value := congrArg Visit.object opened.here
  obtain ⟨v, g, evaluates, changed, rfl⟩ := Application.writeProperty_runs arguments single here
    (gives opened.follows stocked.quiet) writes
  refine ⟨t, ⟨c.entered, made.holding (x.filled (written key v x.properties))⟩, rfl, rfl,
    ⟨made, x.filled _, rfl, opened.follows, ?_, opened.describes.filled _, ?_⟩,
    stocked.change opened.open_ changed⟩
  · rw [opened.here, Element.value_filled]
  · rw [Element.properties_filled]
    exact .write opened.fills known ⟨_, stocked.stands opened.open_, evaluates⟩

theorem Opens.skip {key : String} {e : Expression} (null : e.literal? = some .null) {t : Traverser}
    {c : Course} (opens : Opens b before parts part entries t c) :
    Opens b before parts part (entries ++ [(key, e)]) t c := by
  obtain ⟨made, x, opened⟩ := opens
  exact ⟨made, x, opened.open_, opened.follows, opened.here, opened.describes,
    .skip opened.fills null⟩

/-- An element without a name is made once its entries are written. -/
theorem Opens.close (unnamed : part.anchor? = none) {t : Traverser} {c : Course}
    (opens : Opens b before parts part part.properties t c) :
    Follows b before (parts ++ [part]) t c := by
  obtain ⟨made, x, opened⟩ := opens
  have done : MadeFor before (c.entered.valuation b) (parts ++ [part]) _ :=
    .part opened.follows.makes opened.describes opened.fills
  have same : (made.holding x).calling part.anchor? x.value = c.made := by
    rw [unnamed, opened.open_]
    cases x <;> simp [Made.calling, Made.holding]
  have known : c.made.known = made.known := by
    rw [opened.open_]
    cases x <;> rfl
  refine ⟨⟨opened.follows.tracks.binds, opened.follows.tracks.plain, ?_⟩, same ▸ done⟩
  rw [known]
  exact opened.follows.tracks.labelled

/-- An element with a name is made once it is labelled. -/
theorem label_advances {anchor : Anchor} (named : part.anchor? = some anchor) :
    Advances before (Opens b before parts part part.properties)
      (fun t => pure [t.addLabel anchor.label]) (Follows b before (parts ++ [part])) := by
  rintro t c ⟨made, x, opened⟩ front back world stocked out after ran
  cases ran
  have done : MadeFor before (c.entered.valuation b) (parts ++ [part]) _ :=
    .part opened.follows.makes opened.describes opened.fills
  rw [named, ← opened.open_] at done
  have fresh : t.here.labels = [] := by rw [opened.here]
  have here : t.object = x.value := congrArg Visit.object opened.here
  have known : c.made.known = made.known := by
    rw [opened.open_]
    cases x <;> rfl
  refine ⟨_, ⟨c.entered, c.made.calling (some anchor) x.value⟩, rfl, rfl,
    ⟨⟨opened.follows.tracks.binds, ?_, fun label => ?_⟩, done⟩, stocked.quiet, ?_⟩
  · have plain := opened.follows.tracks.plain
    rw [List.forall_mem_cons] at plain ⊢
    refine ⟨?_, t.past_addLabel _ ▸ plain.2⟩
    change (t.addLabel anchor.label).object.map? = none
    rw [t.object_addLabel]
    exact plain.1
  · rw [Traverser.labelled_addLabel_fresh fresh, opened.follows.tracks.labelled, here]
    by_cases same : anchor.label = label <;> simp [Made.calling, known, same]
  · simpa [Made.calling] using stocked.grown

end Cypher

end PropertyGraph
