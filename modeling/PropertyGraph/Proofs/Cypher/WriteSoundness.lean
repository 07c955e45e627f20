import PropertyGraph.Proofs.Cypher.PatternSoundness
import PropertyGraph.Proofs.Cypher.Scoping

/-!
Scripts of CREATE, SET and DELETE clauses: traversers know the new variables, and the nodes between
which relationships are created.
-/

namespace PropertyGraph

namespace Cypher

open Exec Plan Script Scripting

variable {b : Bindings} {extra : List String} {operations : Ops} {l l' : Live}
  {R : Traverser → Prop}

/-- What a written property says before its key. -/
def cardinalities (single : Bool) : List Argument := if single then [.cardinality .single] else []

theorem writeOps_builds (single : Bool) (key : String) {value : Slot Script} {found : Slot Live}
    (resolved : resolveOne value = .ok found) :
    Builds [writeOps single key value] [.apply (.mk .property
      (cardinalities single ++ [.label key, Live.argument found]))
      ([found].filterMap Live.child?) []] := by
  have both : resolve [.label key, value] = .ok [(Slot.label key : Slot Live), found] := by
    simp only [resolve, resolved]
    rfl
  cases single
  · exact Builds.step .property ⟨rfl, by decide⟩ rfl _ both
  · have three : resolve [.cardinality .single, .label key, value] =
        .ok [(Slot.cardinality .single : Slot Live), .label key, found] := by
      rw [resolve, both]
      rfl
    exact Builds.step .property ⟨rfl, by decide⟩ rfl _ three

theorem propertyArguments_written (single : Bool) (key : String) (value : Argument) :
    ∃ cardinality index,
      Application.propertyArguments (cardinalities single ++ [.label key, value]) =
      (cardinality, index, [.label key, value]) ∧ ∀ c ∈ cardinality, c = .single := by
  cases single
  · exact ⟨none, 0, rfl, nofun⟩
  · exact ⟨some .single, 1, rfl, fun _ same => (Option.some.inj same).symm⟩

namespace Passes

theorem write (single : Bool) (key : String) {value : Slot Script} {found : Slot Live}
    (resolved : resolveOne value = .ok found)
    (gives : ∀ engine, ∀ a b : Application,
      a.children = strictChildren engine ([found].filterMap Live.child?) →
      b.children = runChildren engine ([found].filterMap Live.child?) → ∀ index t, R t →
        Exec.Sound (fun _ => True) (a.valueFrom index key t [Live.argument found] a.children)
          (b.valueFrom index key t [Live.argument found] b.children)) :
    Passes (All R) [writeOps single key value] (All R) := by
  have builds := writeOps_builds single key resolved
  obtain ⟨cardinality, index, arguments, _⟩ :=
    propertyArguments_written single key (Live.argument found)
  refine one ⟨rfl, by decide⟩ builds (.other (by decide) fun engine stream all => ?_)
  exact Application.property_sound arguments rfl rfl
    (fun t member => gives engine _ _ rfl rfl _ t (all t member)) all

theorem writeLiteral (single : Bool) (key : String) (v : Value) :
    Passes (All R) [writeOps single key (.literal v)] (All R) :=
  write single key rfl fun _ _ _ _ _ _ _ _ => .pure trivial

theorem writeValue (single : Bool) (key : String) {inside : Ops}
    (passes : Passes (Count 1 R) inside (Count 1 Anything)) :
    Passes (All R) [writeOps single key (.builder (.of inside))] (All R) := by
  obtain ⟨stages, buildsInside, _, carry⟩ := passes
  obtain ⟨program, performed⟩ := buildsInside.fresh
  have resolved : resolveOne (.builder (.of inside)) =
      .ok (Slot.builder (⟨false, program, .mk stages []⟩ : Live)) := by
    simp only [resolveOne, perform, performed]
    rfl
  refine write single key resolved fun engine a b children children' index t holds => ?_
  exact Application.valueFrom_sound children children' (carry.plan.child engine) index key holds

end Passes

def newPropertyOp (b : Bindings) (single : Bool) (key : String) (e : Expression) :
    Except CompileFault Ops :=
  match e.literal? with
  | some v => .ok (if v.isNull then [] else [writeOps single key (.literal v)])
  | none => do return [writeOps single key (.builder (← valueScript b e))]

def newPropertyOps (b : Bindings) (single : Bool) :
    List (String × Expression) → Except CompileFault Ops
  | [] => .ok []
  | (key, e) :: rest => do
      let op ← newPropertyOp b single key e
      return op ++ (← newPropertyOps b single rest)

theorem newProperties_run (single : Bool) (properties : List (String × Expression))
    (scope : Scope) : (newProperties single properties).run scope =
      (·, scope) <$> newPropertyOps scope.bindings single properties := by
  induction properties with
  | nil => rfl
  | cons entry rest ih =>
      obtain ⟨key, e⟩ := entry
      have follow (first : Ops) :
          (do return first ++ (← newProperties single rest) : Scripting Ops).run scope =
            (fun others => (first ++ others, scope)) <$>
              newPropertyOps scope.bindings single rest := by
        rw [StateT.run_bind, ih]
        cases newPropertyOps scope.bindings single rest <;> rfl
      unfold newProperties newPropertyOps newPropertyOp
      cases e.literal? with
      | some v =>
          refine (follow _).trans ?_
          cases newPropertyOps scope.bindings single rest <;> rfl
      | none =>
          rw [StateT.run_bind]
          have reads : (value e).run scope = (·, scope) <$> valueScript scope.bindings e := by
            simp [value]
          rw [reads]
          cases valueScript scope.bindings e with
          | error fault => rfl
          | ok script =>
              refine (follow _).trans ?_
              cases newPropertyOps scope.bindings single rest <;> rfl

theorem newPropertyOps_passes {single : Bool} {properties : List (String × Expression)}
    (compiled : newPropertyOps b single properties = .ok operations)
    (performed : performAll operations l = .ok l') :
    Passes (Known b extra) operations (Known b extra) := by
  induction properties generalizing operations l with
  | nil =>
      cases compiled
      exact .nil fun _ all => all
  | cons entry rest ih =>
      obtain ⟨key, e⟩ := entry
      obtain ⟨first, one, compiled⟩ := bind_eq_ok.mp compiled
      obtain ⟨others, several, same⟩ := bind_eq_ok.mp compiled
      cases same
      obtain ⟨halfway, begun, performed⟩ := performed_append.mp performed
      refine .append ?_ (ih several performed)
      unfold newPropertyOp at one
      split at one
      · cases one
        split
        · exact .nil fun _ all => all
        · exact .writeLiteral single key _
      · obtain ⟨script, found, same⟩ := bind_eq_ok.mp one
        cases same
        obtain ⟨inside, compiledInside, rfl⟩ := map_eq_ok.mp found
        have performs : Performs inside := by
          cases single <;> exact Performs.within begun List.mem_cons_self (by simp)
        have values := valueOps_passes e compiledInside performs
        exact .writeValue single key (values.before knows_binds)

/-- What creates a relationship from one label to another. -/
def connectOps (source target : String) (r : RelationshipPattern) : Scripting Ops := do
  match r.types, r.length with
  | [label], none =>
      if ← isBound r.name then throw (.declared (r.name.getD ""))
      let properties ← newProperties false r.properties
      let bound ← bind? r.name .relationship
      return [.labelled .addE [label], .labelled .from_ [source], .labelled .to_ [target]]
        ++ properties ++ bound
  | _, _ => throw .createWithoutType

section Parts

variable {scope after : Scope}

theorem addVertexOp_eq {labels : List String} {add : Op Script}
    (made : addVertexOp labels = .ok add) : add = .addVertex labels.head? := by
  unfold addVertexOp at made
  split at made <;> cases made <;> rfl

/-- What the script of a node is: nothing if the node is bound, and otherwise a vertex with its
properties, which is then labelled and declared. -/
theorem createNode_cases {node : NodePattern} {label : String}
    (compiled : (createNode node).run scope = .ok ((label, operations), after)) :
    label = node.name.getD (unnamedLabel (scope.unnamed + 1)) ∧
      ((∃ name, node.name = some name ∧ Dictionary.get? name scope.bindings = some .node ∧
          operations = [] ∧ after = scope) ∨
        (boundKind? scope.bindings node.name = none ∧ ∃ properties,
          newPropertyOps scope.bindings true node.properties = .ok properties ∧
          operations = .addVertex node.labels.head? :: properties ++ [.labelled .as_ [label]] ∧
          after = { ({ scope with started := true } : Scope).declared .node node.name with
            unnamed := if node.name.isNone then scope.unnamed + 1 else scope.unnamed })) := by
  obtain ⟨bound, middle, known, compiled⟩ := run_bind_ok.mp compiled
  rw [isBound_run] at known
  cases known
  split at compiled
  · next already =>
      obtain ⟨kind, bound⟩ := Option.isSome_iff_exists.mp already
      obtain ⟨name, named, declared⟩ := Option.bind_eq_some_iff.mp bound
      rw [named] at compiled ⊢
      dsimp only [Option.getD_some] at compiled
      split at compiled
      · obtain ⟨_, middle, expects, same⟩ := run_bind_ok.mp compiled
        cases same
        rw [expectNode_run, declared] at expects
        cases kind <;> cases expects
        exact ⟨rfl, .inl ⟨_, rfl, declared, rfl, rfl⟩⟩
      · cases compiled
  · next new =>
      obtain ⟨add, _, made, compiled⟩ := run_bind_ok.mp compiled
      obtain ⟨_, _, starts, compiled⟩ := run_bind_ok.mp compiled
      obtain ⟨properties, _, writes, compiled⟩ := run_bind_ok.mp compiled
      obtain ⟨label, middle, given, compiled⟩ := run_bind_ok.mp compiled
      obtain ⟨_, _, declares, same⟩ := run_bind_ok.mp compiled
      cases same
      obtain ⟨_, found, same⟩ : ∃ add', addVertexOp node.labels = .ok add' ∧ (add', scope) = _ :=
        map_eq_ok.mp made
      cases same
      cases starts
      rw [newProperties_run] at writes
      obtain ⟨_, written, same⟩ := map_eq_ok.mp writes
      cases same
      rw [Option.not_isSome_iff_eq_none] at new
      rw [addVertexOp_eq found]
      cases named : node.name with
      | none =>
          rw [named] at given declares
          cases given
          cases declares
          exact ⟨rfl, .inr ⟨rfl, properties, written, rfl, rfl⟩⟩
      | some name =>
          rw [named] at given declares new
          cases given
          cases declares
          exact ⟨rfl, .inr ⟨new, properties, written, rfl, rfl⟩⟩

theorem connectOps_parts {r : RelationshipPattern} {source target : String}
    (compiled : (connectOps source target r).run scope = .ok (operations, after)) :
    ∃ label properties, r.types = [label] ∧ boundKind? scope.bindings r.name = none ∧
      newPropertyOps scope.bindings false r.properties = .ok properties ∧
      operations = [.labelled .addE [label], .labelled .from_ [source], .labelled .to_ [target]]
        ++ properties ++ labelOps r.name ∧
      after = scope.declared .relationship r.name := by
  unfold connectOps at compiled
  split at compiled
  · next label types _ =>
      obtain ⟨bound, _, known, compiled⟩ := run_bind_ok.mp compiled
      rw [isBound_run] at known
      cases known
      split at compiled
      · cases compiled
      · next new =>
          rw [Option.not_isSome_iff_eq_none] at new
          obtain ⟨properties, _, writes, compiled⟩ := run_bind_ok.mp compiled
          obtain ⟨labels, _, binds, same⟩ := run_bind_ok.mp compiled
          cases same
          rw [newProperties_run] at writes
          obtain ⟨_, written, same⟩ := map_eq_ok.mp writes
          cases same
          rw [bind_run] at binds
          cases binds
          exact ⟨label, properties, types, new, written, rfl, rfl⟩
  · cases compiled

/-- A relationship is created from where its arrow comes, so it needs an arrow. -/
theorem createRelationship_cases {r : RelationshipPattern} {left right : String}
    (compiled : (createRelationship left right r).run scope = .ok (operations, after)) :
    (r.direction = .outgoing ∧
        (connectOps left right r).run scope = .ok (operations, after)) ∨
      (r.direction = .incoming ∧
        (connectOps right left r).run scope = .ok (operations, after)) := by
  unfold createRelationship at compiled
  cases direction : r.direction with
  | outgoing =>
      rw [direction] at compiled
      exact .inl ⟨rfl, compiled⟩
  | incoming =>
      rw [direction] at compiled
      exact .inr ⟨rfl, compiled⟩
  | both =>
      rw [direction] at compiled
      cases compiled

theorem made_with {α β γ : Type} (join : α → β → γ) {first : Scripting (α × Ops)}
    {second : Scripting (β × Ops)} {labels : γ}
    (compiled : (do
      let (a, front) ← first
      let (b, back) ← second
      return (join a b, front ++ back) : Scripting (γ × Ops)).run scope =
        .ok ((labels, operations), after))
    (performed : performAll operations l = .ok l') :
    ∃ a front middle b back between, first.run scope = .ok ((a, front), middle) ∧
      performAll front l = .ok between ∧ second.run middle = .ok ((b, back), after) ∧
      performAll back between = .ok l' ∧ labels = join a b := by
  obtain ⟨⟨a, front⟩, middle, begun, compiled⟩ := run_bind_ok.mp compiled
  obtain ⟨⟨b, back⟩, last, ended, same⟩ := run_bind_ok.mp compiled
  cases same
  obtain ⟨between, one, later⟩ := performed_append.mp performed
  exact ⟨a, front, middle, b, back, between, begun, one, ended, later, rfl⟩

/-- The nodes of all paths are created before the relationships. -/
theorem createPaths_parts {paths : List PathPattern}
    (compiled : (createPaths paths).run scope = .ok (operations, after))
    (performed : performAll operations l = .ok l') :
    ∃ created nodes middle edges between,
      (createPathNodes paths).run scope = .ok ((created, nodes), middle) ∧
      performAll nodes l = .ok between ∧
      (createPathEdges created).run middle = .ok (edges, after) ∧
      performAll edges between = .ok l' := by
  obtain ⟨⟨created, nodes⟩, middle, begun, compiled⟩ := run_bind_ok.mp compiled
  obtain ⟨edges, last, ended, same⟩ := run_bind_ok.mp compiled
  cases same
  obtain ⟨between, one, later⟩ := performed_append.mp performed
  exact ⟨created, nodes, middle, edges, between, begun, one, ended, later⟩

end Parts

namespace Ready

variable {scope after : Scope} {extra : List String}

theorem carry (ready : Ready scope extra l) (started : scope.started = true) {label : String}
    (labelled : ∀ t : Traverser, t.Knows scope.bindings extra → t.labelled label ≠ []) :
    Ready scope (label :: extra) l :=
  ready.pass started started
    (.nil fun _ all t member => (all t member).carry (labelled t (all t member))) rfl

theorem createNode {node : NodePattern} {label : String}
    (compiled : (Cypher.createNode node).run scope = .ok ((label, operations), after))
    (ready : Ready scope extra l) (performed : performAll operations l = .ok l') :
    Ready after (label :: extra) l' := by
  obtain ⟨labelled, ⟨name, named, bound, rfl, rfl⟩ | ⟨_, properties, written, rfl, rfl⟩⟩ :=
    createNode_cases compiled
  · cases performed
    rw [named] at labelled
    cases labelled
    exact ready.carry (ready.started_of_bound bound) fun t knows =>
      knows.binds _ .node bound (by decide)
  · rw [List.cons_append] at performed
    obtain ⟨rooted, creates, performed⟩ := performed_cons.mp performed
    obtain ⟨halfway, fills, labels⟩ := performed_append.mp performed
    have created := ready.addVertex _ creates
    have filled := created.pass rfl rfl (newPropertyOps_passes written fills) fills
    cases named : node.name with
    | none =>
        refine filled.pass rfl rfl (addLabel_passes _ fun t knows => ?_) labels
        exact (knows.addLabel _).carry (t.labels_addLabel _)
    | some name =>
        rw [named] at labelled
        cases labelled
        refine filled.pass rfl rfl (addLabel_passes name fun t knows => ?_) labels
        have declared := (knows.addLabel name).declare .node fun _ => t.labels_addLabel name
        exact declared.carry (t.labels_addLabel name)

theorem createNodes {nodes : List NodePattern} {labels : List String}
    (compiled : (Cypher.createNodes nodes).run scope = .ok ((labels, operations), after))
    (ready : Ready scope extra l) (performed : performAll operations l = .ok l') :
    Ready after (labels ++ extra) l' := by
  induction nodes generalizing scope extra operations labels l with
  | nil =>
      cases compiled
      cases performed
      exact ready
  | cons node rest ih =>
      obtain ⟨label, first, middle, labels, others, halfway, one, begun, several, later, rfl⟩ :=
        made_with List.cons compiled performed
      have all := ih several (ready.createNode one begun) later
      refine all.forget fun name member => ?_
      simp only [List.mem_append, List.mem_cons] at member ⊢
      tauto

end Ready

theorem addE_builds (label source target : String) :
    Builds [.labelled .addE [label], .labelled .from_ [source], .labelled .to_ [target]]
      [.apply (.mk .addE [.label label]) [] [.mk (.mk .from_ [.label source]) [] false,
        .mk (.mk .to_ [.label target]) [] false]] := by
  have end_ (kind : StepKind) (modulating : kind.isModulator = true)
      (takes : Plan.modulates kind .addE = true) (inner : kind.isEntry = false) (name : String) :
      Modulates .addE (.labelled kind [name] inner) (.mk (.mk kind [.label name]) [] false) := by
    have resolved : resolve [.label name] = .ok [(Slot.label name : Slot Live)] := rfl
    exact Modulates.step modulating takes inner resolved
  exact (Builds.labelled .addE ⟨rfl, by decide⟩ rfl [label]).modulated
    (.cons (end_ .from_ rfl rfl rfl source) (.cons (end_ .to_ rfl rfl rfl target) .nil))

theorem Passes.addE {label source target : String} (left : source ∈ extra)
    (right : target ∈ extra) :
    Passes (Known b extra) [.labelled .addE [label], .labelled .from_ [source],
      .labelled .to_ [target]] (Known b extra) := by
  refine .one ⟨rfl, by decide⟩ (addE_builds label source target)
    (.other (by decide) fun engine stream all => ?_)
  refine (Application.addE_sound (S := fun t => t.Knows b extra) label source target rfl rfl
    (fun t member => ?_) fun t member _ => (all t member).split rfl).imp fun _ count => count.all
  exact ⟨t.named?_labelled ((all t member).carries source left),
    t.named?_labelled ((all t member).carries target right)⟩

namespace Ready

variable {scope after : Scope} {extra : List String}

theorem started_of_labels (ready : Ready scope extra l) {name : String} (member : name ∈ extra) :
    scope.started = true := by
  cases started : scope.started with
  | true => rfl
  | false =>
      rw [(ready.blank started).2.2] at member
      cases member

theorem connect {r : RelationshipPattern} {source target : String}
    (compiled : (connectOps source target r).run scope = .ok (operations, after))
    (ready : Ready scope extra l) (left : source ∈ extra) (right : target ∈ extra)
    (performed : performAll operations l = .ok l') : Ready after extra l' := by
  have started := ready.started_of_labels left
  obtain ⟨label, properties, _, _, written, rfl, rfl⟩ := connectOps_parts compiled
  obtain ⟨filled, performed, labelled⟩ := performed_append.mp performed
  obtain ⟨created, adds, fills⟩ := performed_append.mp performed
  have there := ready.pass started started (.addE left right) adds
  have complete := there.pass started started (newPropertyOps_passes written fills) fills
  have still := (scope.declared_started .relationship r.name).trans started
  exact complete.pass started still (labelOps_declare _ _ _) labelled

theorem createRelationship {r : RelationshipPattern} {left right : String}
    (compiled : (Cypher.createRelationship left right r).run scope = .ok (operations, after))
    (ready : Ready scope extra l) (leftLabel : left ∈ extra) (rightLabel : right ∈ extra)
    (performed : performAll operations l = .ok l') : Ready after extra l' := by
  obtain ⟨_, connects⟩ | ⟨_, connects⟩ := createRelationship_cases compiled
  · exact ready.connect connects leftLabel rightLabel performed
  · exact ready.connect connects rightLabel leftLabel performed

theorem createChain {labels : List String} {chain : List (RelationshipPattern × NodePattern)}
    (compiled : (Cypher.createChain labels chain).run scope = .ok (operations, after))
    (ready : Ready scope extra l) (labelled : ∀ label ∈ labels, label ∈ extra)
    (performed : performAll operations l = .ok l') : Ready after extra l' := by
  fun_induction Cypher.createChain labels chain generalizing scope operations l with
  | case1 left right labels r node rest ih =>
      obtain ⟨first, middle, others, halfway, one, begun, several, later⟩ :=
        made_append compiled performed
      obtain ⟨leftLabel, rightLabels⟩ := List.forall_mem_cons.mp labelled
      have rightLabel := rightLabels _ List.mem_cons_self
      exact ih several (ready.createRelationship one leftLabel rightLabel begun) rightLabels later
  | case2 =>
      cases compiled
      cases performed
      exact ready

theorem createPathNodes {paths : List PathPattern} {created : List (List String × PathPattern)}
    (compiled : (Cypher.createPathNodes paths).run scope = .ok ((created, operations), after))
    (ready : Ready scope extra l) (performed : performAll operations l = .ok l') :
    Ready after (created.flatMap (·.1) ++ extra) l' := by
  induction paths generalizing scope extra operations created l with
  | nil =>
      cases compiled
      cases performed
      exact ready
  | cons p rest ih =>
      obtain ⟨labels, first, middle, others, more, halfway, one, begun, several, later, rfl⟩ :=
        made_with (fun labels others => (labels, p) :: others) compiled performed
      have all := ih several (ready.createNodes one begun) later
      refine all.forget fun name member => ?_
      simp only [List.flatMap_cons, List.mem_append] at member ⊢
      tauto

theorem createPathEdges {paths : List (List String × PathPattern)}
    (compiled : (Cypher.createPathEdges paths).run scope = .ok (operations, after))
    (ready : Ready scope extra l) (labelled : ∀ label ∈ paths.flatMap (·.1), label ∈ extra)
    (performed : performAll operations l = .ok l') : Ready after extra l' := by
  induction paths generalizing scope operations l with
  | nil =>
      cases compiled
      cases performed
      exact ready
  | cons path rest ih =>
      obtain ⟨labels, p⟩ := path
      obtain ⟨first, middle, others, halfway, one, begun, several, later⟩ :=
        made_append compiled performed
      rw [List.flatMap_cons] at labelled
      have created := ready.createChain one
        (fun label member => labelled label (List.mem_append_left _ member)) begun
      exact ih several created (fun label member => labelled label (List.mem_append_right _ member))
        later

theorem createPaths {paths : List PathPattern}
    (compiled : (Cypher.createPaths paths).run scope = .ok (operations, after))
    (ready : Ready scope [] l) (performed : performAll operations l = .ok l') :
    Ready after [] l' := by
  obtain ⟨created, nodes, middle, edges, halfway, first, begun, second, later⟩ :=
    createPaths_parts compiled performed
  have labelled := ready.createPathNodes first begun
  rw [List.append_nil] at labelled
  exact (labelled.createPathEdges second (fun _ member => member) later).forget nofun

/-- A traversal that has found and created nothing starts with a text. -/
theorem startOps
    (compiled : Cypher.startOps.run scope = .ok (operations, after))
    (ready : Ready scope [] l) (performed : performAll operations l = .ok l') :
    Ready after [] l' ∧ after.started = true := by
  rw [startOps_run] at compiled
  split at compiled
  · next started =>
      cases compiled
      cases performed
      exact ⟨ready, started⟩
  · next fresh =>
      cases compiled
      have blank : scope.started = false := eq_false_of_ne_true fresh
      have resolved : resolve [Slot.literal (.string startText)] =
          .ok [(Slot.literal (.string startText) : Slot Live)] := rfl
      have builds := Builds.step .inject ⟨rfl, by decide⟩ rfl _ resolved
      obtain ⟨program, done⟩ := builds l ready.settled
      cases Except.ok.inj (performed.symm.trans done)
      have carry : StagesCarry (· = []) [.bare .inject [.literal (.string startText)]]
          (Known [] []) := by
        have given : [Argument.literal (.string startText)] =
            [Value.string startText].map .literal := rfl
        exact .other (by decide) fun engine stream none =>
          Application.inject_sound given (none ▸ nofun)
            fun v member => List.mem_singleton.mp member ▸ .start rfl
      refine ⟨ready.first blank rfl carry ready.bound ?_, rfl⟩
      rw [(ready.blank blank).1, List.nil_append]
      rfl

end Ready

namespace Passes

theorem unfold : Passes (Count 1 Anything) [.append .unfold []] (All Anything) :=
  bare ⟨rfl, by decide⟩ (by decide) rfl fun _ _ _ =>
    (Application.unfold_sound fun _ _ _ _ => trivial).imp fun _ parts => parts.1

theorem drop : Passes (All R) [.append .drop []] fun _ => True :=
  bare ⟨rfl, by decide⟩ (by decide) rfl fun _ stream _ =>
    (Application.drop_sound (S := Anything) _ stream).imp fun _ _ => trivial

end Passes

theorem selectOne_passes {name : String} {kind : NameKind}
    (declared : Dictionary.get? name b = some kind) (single : kind ≠ .relationships) :
    Passes (Count 1 fun t => t.Knows b extra) [.select [name]]
      (Count 1 fun t => t.Knows b extra) :=
  .select (fun _ knows => knows.binds.finds declared single)
    (fun _ _ knows found => knows.split_named found)
    fun _ _ count => ⟨count.all, fun reached => count.length ▸ reached⟩

/-- What is set is found by every traverser. -/
def setValue (b : Bindings) (e : Expression) : Except CompileFault (Slot Script) :=
  match e.literal? with
  | some v => .ok (.literal (literalValue v))
  | none => .builder <$> valueScript b e

theorem setValue_passes {owner key : String} {e : Expression} {value : Slot Script} (single : Bool)
    {kind : NameKind} (declared : Dictionary.get? owner b = some kind)
    (one : kind ≠ .relationships) (found : setValue b e = .ok value)
    (performed : performAll [.nested .sideEffect [.of [.select [owner],
      writeOps single key value]]] l = .ok l') :
    Passes (Known b []) [.nested .sideEffect [.of [.select [owner], writeOps single key value]]]
      (Known b []) := by
  have performs : Performs [.select [owner], writeOps single key value] :=
    Performs.within performed List.mem_cons_self List.mem_cons_self
  have written : Passes (All fun t => t.Knows b []) [writeOps single key value]
      (All fun t => t.Knows b []) := by
    unfold setValue at found
    split at found
    · cases found
      exact .writeLiteral single key _
    · obtain ⟨script, scripted, rfl⟩ := map_eq_ok.mp found
      obtain ⟨inside, compiled, rfl⟩ := map_eq_ok.mp scripted
      have builds : Performs inside := by
        cases single <;> exact performs.inside (List.mem_cons_of_mem _ List.mem_cons_self) (by simp)
      exact .writeValue single key ((valueOps_passes e compiled builds).before knows_binds)
  have selected : Passes (Count 1 fun t => t.Knows b []) [.select [owner]] (Count 1 _) :=
    selectOne_passes declared one
  have chosen := selected.after fun _ count => count.all
  exact .sideEffect ((chosen.append written).after fun _ _ => trivial)

theorem setOps_eq (b : Bindings) (item : SetItem) : setOps b item = do
    let kind ← kindOf b item.owner
    if kind = .relationships then throw (.setOnPath item.owner)
    let value ← setValue b item.value
    return .nested .sideEffect
      [.of [.select [item.owner], writeOps (kind == .node) item.key value]] := by
  unfold setOps setValue
  cases kindOf b item.owner with
  | error fault => rfl
  | ok kind => cases kind <;> cases item.value.literal? <;> rfl

theorem setOps_parts {item : SetItem} {op : Op Script} (compiled : setOps b item = .ok op) :
    ∃ kind value, Dictionary.get? item.owner b = some kind ∧ kind ≠ .relationships ∧
      setValue b item.value = .ok value ∧ op = .nested .sideEffect
        [.of [.select [item.owner], writeOps (kind == .node) item.key value]] := by
  rw [setOps_eq] at compiled
  obtain ⟨kind, declared, compiled⟩ := bind_eq_ok.mp compiled
  split at compiled
  · cases compiled
  · next single =>
      obtain ⟨value, found, same⟩ := bind_eq_ok.mp compiled
      cases same
      exact ⟨kind, value, kindOf_eq declared, single, found, rfl⟩

theorem setOps_passes {item : SetItem} {op : Op Script} (compiled : setOps b item = .ok op)
    (performed : performAll [op] l = .ok l') : Passes (Known b []) [op] (Known b []) := by
  obtain ⟨kind, value, declared, single, found, rfl⟩ := setOps_parts compiled
  exact setValue_passes _ declared single found performed

theorem setAll_passes {items : List SetItem} (compiled : setAll b items = .ok operations)
    (performed : performAll operations l = .ok l') :
    Passes (Known b []) operations (Known b []) := by
  induction items generalizing operations l with
  | nil =>
      cases compiled
      exact .nil fun _ all => all
  | cons item rest ih =>
      obtain ⟨op, first, compiled⟩ := bind_eq_ok.mp compiled
      obtain ⟨others, several, same⟩ := bind_eq_ok.mp compiled
      cases same
      obtain ⟨middle, one, later⟩ := performed_cons.mp performed
      exact (setOps_passes first one).append (ih several later)

theorem removal_passes {kind : NameKind} {name : String}
    (declared : Dictionary.get? name b = some kind) :
    Passes (Known b []) [removal (kind, name)] (Known b []) := by
  have one (single : kind ≠ .relationships) :
      Passes (Known b []) [.nested .sideEffect [.of [.select [name], .append .drop []]]]
        (Known b []) :=
    .sideEffect (((selectOne_passes declared single).after fun _ count => count.all).append .drop)
  cases kind with
  | relationships =>
      exact .sideEffect (((Passes.selectAll name fun _ _ _ => trivial).append .unfold).append .drop)
  | _ => exact one nofun

theorem kindsOf_declared {names : List String} {targets : List (NameKind × String)}
    (compiled : kindsOf b names = .ok targets) :
    ∀ target ∈ targets, Dictionary.get? target.2 b = some target.1 := by
  induction names generalizing targets with
  | nil =>
      cases compiled
      exact nofun
  | cons name rest ih =>
      obtain ⟨kind, declared, compiled⟩ := bind_eq_ok.mp compiled
      obtain ⟨others, several, same⟩ := bind_eq_ok.mp compiled
      cases same
      exact List.forall_mem_cons.mpr ⟨kindOf_eq declared, ih several⟩

theorem deleteOps_passes {d : DeleteClause} (compiled : deleteOps b d = .ok operations) :
    Passes (Known b []) operations (Known b []) := by
  obtain ⟨targets, found, compiled⟩ := bind_eq_ok.mp compiled
  rw [List.partition_eq_filter_filter] at compiled
  cases compiled
  refine .filters fun op member => ?_
  obtain ⟨⟨kind, name⟩, listed, rfl⟩ := List.mem_map.mp member
  refine removal_passes (kindsOf_declared found (kind, name) ?_)
  rw [List.mem_append] at listed
  exact listed.elim List.mem_of_mem_filter List.mem_of_mem_filter

end Cypher

end PropertyGraph
