import PropertyGraph.Proofs.Cypher.Creating

/-!
The script of a CREATE clause, part by part: from the rows that came in, the parts of the clause are
made in turn, and the scope declares what they are called.
-/

namespace PropertyGraph

open Exec Plan

namespace Cypher

open Script Scripting

variable {b : Bindings} {engine : Engine} {store : Store} {came : List Traverser → Prop}
  {R S : Traverser → Course → Prop} {scope after : Scope} {anchors : List Anchor}
  {parts : List Part} {l l' : Live} {operations : Ops}

namespace Declares

theorem start (declares : Declares b anchors scope) :
    Declares b anchors { scope with started := true } :=
  ⟨declares.distinct, declares.numbered, declares.declared, declares.kept, declares.unreserved⟩

theorem fresh_named (declares : Declares b anchors scope) {name : String}
    (new : Dictionary.get? name scope.bindings = none) : .named name ∉ anchors := by
  intro member
  obtain ⟨kind, bound, _⟩ := declares.declared name member
  rw [new] at bound
  cases bound

theorem declare (declares : Declares b anchors scope) {name : String}
    (new : Dictionary.get? name scope.bindings = none) (unreserved : ∀ n, name ≠ unnamedLabel n)
    (kind : NameKind) (single : kind ≠ .relationships) :
    Declares b (anchors ++ [.named name]) (scope.declared kind (some name)) where
  distinct := by
    rw [List.nodup_append]
    refine ⟨declares.distinct, List.nodup_singleton _, fun other member another same => ?_⟩
    rw [List.mem_singleton.mp same]
    rintro rfl
    exact declares.fresh_named new member
  numbered n member := by
    rw [List.mem_append, List.mem_singleton] at member
    exact declares.numbered n (member.resolve_right nofun)
  declared other member := by
    rw [Scope.declared, Dictionary.get?_put]
    by_cases same : other = name
    · exact ⟨kind, if_pos same, single⟩
    · rw [if_neg same]
      rw [List.mem_append, List.mem_singleton] at member
      exact declares.declared other (member.resolve_right fun equal => same (Anchor.named.inj equal))
  kept other absent := by
    rw [List.mem_append, List.mem_singleton, not_or] at absent
    rw [Scope.declared, Dictionary.get?_put, if_neg fun same => absent.2 (congrArg _ same)]
    exact declares.kept other absent.1
  unreserved other bound := by
    rw [Scope.declared, Dictionary.get?_put] at bound
    split at bound
    · next same => exact same ▸ unreserved
    · exact declares.unreserved other bound

theorem number (declares : Declares b anchors scope) :
    Declares b (anchors ++ [.unnamed (scope.unnamed + 1)])
      { scope with unnamed := scope.unnamed + 1 } where
  distinct := by
    rw [List.nodup_append]
    refine ⟨declares.distinct, List.nodup_singleton _, fun other member another same => ?_⟩
    rw [List.mem_singleton.mp same]
    rintro rfl
    exact absurd (declares.numbered _ member) (Nat.not_succ_le_self _)
  numbered n member := by
    rw [List.mem_append, List.mem_singleton] at member
    rcases member with before | same
    · exact Nat.le_succ_of_le (declares.numbered n before)
    · exact Nat.le_of_eq (Anchor.unnamed.inj same)
  declared other member := by
    rw [List.mem_append, List.mem_singleton] at member
    exact declares.declared other (member.resolve_right nofun)
  kept other absent := declares.kept other fun member => absent (List.mem_append_left _ member)
  unreserved := declares.unreserved

theorem node (declares : Declares b anchors scope) {node : NodePattern}
    (new : boundKind? scope.bindings node.name = none)
    (unreserved : ∀ name ∈ node.name, ∀ n, name ≠ unnamedLabel n) :
    Declares b (anchors ++ [anchorOf scope.unnamed node])
      { scope.declared .node node.name with unnamed := numberAfter scope.unnamed node } := by
  rw [anchorOf, numberAfter]
  cases named : node.name with
  | none => exact declares.number
  | some name =>
      rw [named] at new
      exact declares.declare new (unreserved name named) .node (by decide)

theorem relationship (declares : Declares b anchors scope) {name : Option String}
    (new : boundKind? scope.bindings name = none)
    (unreserved : ∀ given ∈ name, ∀ n, given ≠ unnamedLabel n) :
    Declares b (anchors ++ (name.map .named).toList) (scope.declared .relationship name) := by
  cases name with
  | none => rwa [Option.map_none, Option.toList_none, List.append_nil]
  | some name => exact declares.declare new (unreserved name rfl) .relationship (by decide)

end Declares

namespace Nameable

variable {anchor : Anchor}

theorem start (nameable : Nameable scope anchors anchor) :
    Nameable { scope with started := true } anchors anchor := nameable

theorem more (nameable : Nameable scope anchors anchor) (others : List Anchor) :
    Nameable scope (anchors ++ others) anchor := by
  cases anchor with
  | named name => exact nameable
  | unnamed n => exact List.mem_append_left _ nameable

theorem declare (nameable : Nameable scope anchors anchor) {name : Option String}
    (new : boundKind? scope.bindings name = none) (kind : NameKind) (n : Nat) :
    Nameable { scope.declared kind name with unnamed := n } anchors anchor := by
  cases anchor with
  | unnamed n => exact nameable
  | named other =>
      cases name with
      | none => exact nameable
      | some name =>
          have bound : Dictionary.get? other scope.bindings = some .node := nameable
          have differs : other ≠ name := by
            rintro rfl
            exact Option.some_ne_none _ (bound.symm.trans new)
          change Dictionary.get? other (Dictionary.put name kind scope.bindings) = _
          rw [Dictionary.get?_put, if_neg differs, bound]

theorem node (scope : Scope) (anchors : List Anchor) (node : NodePattern) (n : Nat) :
    Nameable { scope.declared .node node.name with unnamed := n }
      (anchors ++ [anchorOf scope.unnamed node]) (anchorOf scope.unnamed node) := by
  rw [anchorOf]
  cases node.name with
  | none => exact List.mem_append_right _ List.mem_cons_self
  | some name =>
      change Dictionary.get? name (Dictionary.put name .node scope.bindings) = _
      rw [Dictionary.get?_put, if_pos rfl]

end Nameable

theorem anchoredPaths_mem {n : Nat} {paths : List PathPattern} :
    ∀ path ∈ anchoredPaths n paths, path.2 ∈ paths := by
  induction paths generalizing n with
  | nil => exact nofun
  | cons p rest ih =>
      exact List.forall_mem_cons.mpr ⟨List.mem_cons_self, fun path member =>
        List.mem_cons_of_mem _ (ih path member)⟩

theorem anchorOf_label (n : Nat) (node : NodePattern) :
    (anchorOf n node).label = node.name.getD (unnamedLabel (n + 1)) := by
  unfold anchorOf
  cases node.name <;> rfl

/-- What a builder holds takes the rows that came in to one state. -/
structure Arrives (engine : Engine) (store : Store) (came : List Traverser → Prop)
    (R : Traverser → Course → Prop) (l : Live) : Prop where
  settled : l.plan.pending = []
  standing : l.plan.stages ≠ []
  runs : ∀ {out world}, (runStages engine l.plan.stages []).run ⟨store, []⟩ = (.ok out, world) →
    ∃ courses, List.Forall₂ R out courses ∧ came (courses.map (·.entered)) ∧
      Stocked store.graph courses world

theorem Arrives.go (arrives : Arrives engine store came R l)
    (lets : Lets store.graph R operations S) (performed : performAll operations l = .ok l') :
    Arrives engine store came S l' := by
  obtain ⟨stages, continues, conveys⟩ := lets
  obtain ⟨program, done⟩ := continues l arrives.settled arrives.standing
  cases Except.ok.inj (performed.symm.trans done)
  refine ⟨rfl, fun nothing => arrives.standing (List.append_eq_nil_iff.mp nothing).1, ?_⟩
  intro out world ran
  change (runStages engine (l.plan.stages ++ stages) []).run _ = _ at ran
  rw [runStages_append] at ran
  obtain ⟨between, middle, one, two⟩ := runs_bind.mp ran
  obtain ⟨courses, follow, same, stocked⟩ := arrives.runs one
  obtain ⟨others, follow, kept, stocked⟩ := conveys follow stocked two
  exact ⟨others, follow, kept ▸ same, stocked⟩

/-- The one row of a query that matches nothing. -/
def alone : Traverser := .start .null

/-- The parts are made by what the builder holds, and their names are declared; `nameable` are what
ends of relationships may be called. Before anything is created nothing may have been built. -/
structure Creating (b : Bindings) (engine : Engine) (store : Store) (came : List Traverser → Prop)
    (scope : Scope) (parts : List Part) (nameable : List Anchor) (l : Live) : Prop where
  declares : Declares b (parts.filterMap Part.anchor?) scope
  names : ∀ anchor ∈ nameable, Nameable scope (parts.filterMap Part.anchor?) anchor
  begun : scope.started = true →
    Arrives engine store came (Follows b store.graph parts) l
  blank : scope.started = false →
    b = [] ∧ parts = [] ∧ came [alone] ∧ l.bound = true ∧ l.plan = .empty

/-- A vertex of a query that matches nothing is where the traversal starts. -/
theorem Arrives.root (one : came [alone]) (reachable : store.graph.Reachable)
    (bound : l.bound = true) (plan : l.plan = .empty) {pattern : NodePattern}
    (performed : performAll [.addVertex pattern.labels.head?] l = .ok l') (anchor : Anchor) :
    Arrives engine store came (Opens [] store.graph [] (.node anchor pattern) []) l' := by
  have rooting : l.isRooting = true := by
    rw [Live.isRooting, bound, plan]
    rfl
  simp only [performAll, performOne, Backend.addVertex, rooting, if_true, ok_bind] at performed
  cases performed
  have held : (l.root (Live.addVertexStep pattern.labels.head?)
      (.addVertex pattern.labels.head?)).plan = .mk [.addVertex pattern.labels.head?] [] := by
    rw [Live.root, plan]
    rfl
  refine ⟨by rw [held]; rfl, by rw [held]; exact List.cons_ne_nil _ _, ?_⟩
  intro out world ran
  rw [held, Plan.stages, runStages_one] at ran
  obtain ⟨_, _, creates, same⟩ := runs_bind.mp ran
  cases same
  obtain ⟨rfl, rfl⟩ := createVertex_runs creates
  have stocked : Stocked store.graph ([] ++ ⟨alone, .nothing⟩ :: []) ⟨store, []⟩ :=
    ⟨rfl, .refl reachable⟩
  have added := stocked.addVertex (pattern.labels.head?.getD defaultLabel)
  refine ⟨[⟨alone, _⟩], .cons ⟨.nothing, .vertex _, rfl, ?_, rfl, .node rfl, .nil⟩ .nil, one,
    added⟩
  have nothing : ∀ name kind, Dictionary.get? name ([] : Bindings) = some kind →
      kind ≠ .relationships → Traverser.labelled alone name ≠ [] := by
    rintro name kind ⟨⟩
  exact ⟨⟨nothing, List.forall_mem_singleton.mpr rfl, fun _ => rfl⟩, .nothing⟩

/-- A node is bound in the scope if its name was bound before or names a part. -/
theorem Declares.known (declares : Declares b anchors scope) (node : NodePattern) :
    (anchorOf scope.unnamed node ∈ b.keys.map .named ∨ anchorOf scope.unnamed node ∈ anchors) ↔
      (boundKind? scope.bindings node.name).isSome := by
  cases named : node.name with
  | none =>
      simp only [anchorOf, named, boundKind?, Option.bind_none, Option.isSome_none,
        Bool.false_eq_true, iff_false, not_or]
      constructor
      · intro member
        obtain ⟨_, _, same⟩ := List.mem_map.mp member
        cases same
      · exact fun member => absurd (declares.numbered _ member) (Nat.not_succ_le_self _)
  | some name =>
      have listed : Anchor.named name ∈ b.keys.map .named ↔ (Dictionary.get? name b).isSome := by
        rw [Dictionary.get?_isSome]
        simp [Dictionary.keys]
      simp only [anchorOf, named, boundKind?, Option.bind_some, listed]
      by_cases member : .named name ∈ anchors
      · obtain ⟨kind, bound, _⟩ := declares.declared name member
        simp [member, bound]
      · simp [member, declares.kept name member]

namespace Creating

variable {nameable : List Anchor}

/-- The script of a new node makes its part, at the start of the traversal or after others. -/
theorem newNode {node : NodePattern} {properties : Ops} (reachable : store.graph.Reachable)
    (creating : Creating b engine store came scope parts nameable l)
    (written : newPropertyOps scope.bindings true node.properties = .ok properties)
    (performed : performAll (.addVertex node.labels.head? :: properties ++
      [.labelled .as_ [node.name.getD (unnamedLabel (scope.unnamed + 1))]]) l = .ok l') :
    Arrives engine store came (Follows b store.graph
      (parts ++ [.node (anchorOf scope.unnamed node) node])) l' := by
  rw [List.cons_append, ← anchorOf_label] at performed
  obtain ⟨rooted, adds, fills⟩ := performed_cons.mp performed
  have opened : Arrives engine store came
      (Opens b store.graph parts (.node (anchorOf scope.unnamed node) node) []) rooted := by
    cases started : scope.started with
    | true => exact (creating.begun started).go (addVertex_let _ node) adds
    | false =>
        obtain ⟨rfl, rfl, alone_, isBound, plan⟩ := creating.blank started
        exact .root alone_ reachable isBound plan adds _
  obtain ⟨middle, writes, _⟩ := performed_append.mp fills
  exact opened.go (node_let creating.declares written writes) fills

theorem createNode {node : NodePattern} {label : String} (reachable : store.graph.Reachable)
    (unreserved : ∀ name ∈ node.name, ∀ n, name ≠ unnamedLabel n)
    (compiled : (Cypher.createNode node).run scope = .ok ((label, operations), after))
    (creating : Creating b engine store came scope parts nameable l)
    (performed : performAll operations l = .ok l') :
    Creating b engine store came after
        (withNode (b.keys.map .named) parts (anchorOf scope.unnamed node, node))
        (anchorOf scope.unnamed node :: nameable) l' ∧
      after.started = true ∧ after.unnamed = numberAfter scope.unnamed node := by
  have declares := creating.declares
  obtain ⟨rfl, ⟨name, named, bound, rfl, rfl⟩ | ⟨new, properties, written, rfl, rfl⟩⟩ :=
    createNode_cases compiled
  · cases performed
    have started : after.started = true := by
      by_contra nothing
      obtain ⟨rfl, rfl, -⟩ := creating.blank (eq_false_of_ne_true nothing)
      have unbound := declares.kept name List.not_mem_nil
      rw [bound] at unbound
      cases unbound
    have known : withNode (b.keys.map .named) parts (anchorOf after.unnamed node, node) = parts :=
      if_pos ((declares.known node).mpr (by simp [boundKind?, named, bound]))
    have here : anchorOf after.unnamed node = .named name := by rw [anchorOf, named]
    rw [known]
    refine ⟨⟨declares, List.forall_mem_cons.mpr ⟨?_, creating.names⟩, creating.begun,
      creating.blank⟩, started, by rw [numberAfter, named]; rfl⟩
    rw [here]
    exact bound
  · have fresh : withNode (b.keys.map .named) parts (anchorOf scope.unnamed node, node) =
        parts ++ [.node (anchorOf scope.unnamed node) node] :=
      if_neg fun member => by
        have known := (declares.known node).mp member
        rw [new] at known
        cases known
    have followed := creating.newNode reachable written performed
    have started : (({ scope with started := true } : Scope).declared .node node.name).started =
        true := Scope.declared_started ..
    rw [fresh]
    refine ⟨⟨?_, ?_, fun _ => followed, fun no => ?_⟩, started, rfl⟩
    · rw [List.filterMap_append]
      exact declares.start.node new unreserved
    · rw [List.filterMap_append]
      exact List.forall_mem_cons.mpr ⟨.node _ _ node _, fun anchor member =>
        ((creating.names anchor member).start.more _).declare new .node _⟩
    · exact absurd (started.symm.trans no) (by decide)

theorem forget (creating : Creating b engine store came scope parts nameable l)
    {fewer : List Anchor} (included : ∀ anchor ∈ fewer, anchor ∈ nameable) :
    Creating b engine store came scope parts fewer l :=
  ⟨creating.declares, fun anchor member => creating.names anchor (included anchor member),
    creating.begun, creating.blank⟩

theorem createNodes {nodes : List NodePattern} {labels : List String}
    (reachable : store.graph.Reachable)
    (unreserved : ∀ node ∈ nodes, ∀ name ∈ node.name, ∀ n, name ≠ unnamedLabel n)
    (compiled : (Cypher.createNodes nodes).run scope = .ok ((labels, operations), after))
    (creating : Creating b engine store came scope parts nameable l)
    (performed : performAll operations l = .ok l') :
    labels = (anchored scope.unnamed nodes).map (·.1.label) ∧
      Creating b engine store came after
        ((anchored scope.unnamed nodes).foldl (withNode (b.keys.map .named)) parts)
        ((anchored scope.unnamed nodes).map (·.1) ++ nameable) l' ∧
      (scope.started = true ∨ nodes ≠ [] → after.started = true) ∧
      after.unnamed = nodes.foldl numberAfter scope.unnamed := by
  induction nodes generalizing scope parts nameable operations labels l with
  | nil =>
      cases compiled
      cases performed
      exact ⟨rfl, creating, fun started => started.resolve_right (absurd rfl), rfl⟩
  | cons node rest ih =>
      obtain ⟨label, first, middle, labels, others, halfway, one, begun, several, later, rfl⟩ :=
        made_with List.cons compiled performed
      have labelled := (createNode_cases one).1
      obtain ⟨created, started, unnamed⟩ :=
        creating.createNode reachable (unreserved node List.mem_cons_self) one begun
      obtain ⟨rfl, all, still, numbers⟩ :=
        ih (fun other member => unreserved other (List.mem_cons_of_mem _ member)) several created
          later
      rw [unnamed] at all numbers ⊢
      refine ⟨by rw [labelled, ← anchorOf_label]; rfl, all.forget fun anchor member => ?_,
        fun _ => still (.inl started), numbers⟩
      simp only [anchored, List.map_cons, List.mem_append, List.mem_cons] at member ⊢
      tauto

theorem createPathNodes {paths : List PathPattern} {created : List (List String × PathPattern)}
    (reachable : store.graph.Reachable)
    (unreserved : ∀ p ∈ paths, ∀ node ∈ p.nodes, ∀ name ∈ node.name, ∀ n, name ≠ unnamedLabel n)
    (compiled : (Cypher.createPathNodes paths).run scope = .ok ((created, operations), after))
    (creating : Creating b engine store came scope parts nameable l)
    (performed : performAll operations l = .ok l') :
    created = (anchoredPaths scope.unnamed paths).map
        (fun path => (path.1.map (·.1.label), path.2)) ∧
      Creating b engine store came after
        (((anchoredPaths scope.unnamed paths).flatMap (·.1)).foldl
          (withNode (b.keys.map .named)) parts)
        (((anchoredPaths scope.unnamed paths).flatMap (·.1)).map (·.1) ++ nameable) l' ∧
      (scope.started = true ∨ paths ≠ [] → after.started = true) := by
  induction paths generalizing scope parts nameable operations created l with
  | nil =>
      cases compiled
      cases performed
      exact ⟨rfl, creating, fun started => started.resolve_right (absurd rfl)⟩
  | cons p rest ih =>
      obtain ⟨labels, first, middle, others, more, halfway, one, begun, several, later, rfl⟩ :=
        made_with (fun labels others => (labels, p) :: others) compiled performed
      obtain ⟨rfl, along, started, unnamed⟩ :=
        creating.createNodes reachable (unreserved p List.mem_cons_self) one begun
      obtain ⟨rfl, all, still⟩ :=
        ih (fun other member => unreserved other (List.mem_cons_of_mem _ member)) several along
          later
      have numbers : middle.unnamed = p.nodes.foldl numberAfter scope.unnamed := unnamed
      rw [numbers] at all ⊢
      refine ⟨rfl, ?_, fun _ => still (.inl (started (.inr (List.cons_ne_nil _ _))))⟩
      rw [anchoredPaths, List.flatMap_cons, List.foldl_append]
      refine all.forget fun anchor member => ?_
      simp only [List.map_append, List.mem_append] at member ⊢
      tauto

theorem connect {r : RelationshipPattern} {source target : Anchor}
    (unreserved : ∀ name ∈ r.name, ∀ n, name ≠ unnamedLabel n)
    (compiled : (connectOps source.label target.label r).run scope = .ok (operations, after))
    (creating : Creating b engine store came scope parts nameable l)
    (started : scope.started = true) (starts : source ∈ nameable) (ends : target ∈ nameable)
    (performed : performAll operations l = .ok l') :
    Creating b engine store came after (parts ++ [.edge source target r]) nameable l' ∧
      after.started = true := by
  have declares := creating.declares
  obtain ⟨label, properties, types, new, written, rfl, rfl⟩ := connectOps_parts compiled
  obtain ⟨_, _, fills⟩ := Performs.part ⟨_, _, rfl⟩ performed
  have followed := (creating.begun started).go (edge_let types declares
    (creating.names source starts) (creating.names target ends) written fills) performed
  have anchors : (parts ++ [Part.edge source target r]).filterMap Part.anchor? =
      parts.filterMap Part.anchor? ++ (r.name.map .named).toList := by
    rw [List.filterMap_append, List.filterMap_cons, List.filterMap_nil, Part.anchor?]
    cases r.name <;> rfl
  have still := (scope.declared_started .relationship r.name).trans started
  refine ⟨⟨?_, ?_, fun _ => followed, fun no => absurd (still.symm.trans no) (by decide)⟩, still⟩
  · rw [anchors]
    exact declares.relationship new unreserved
  · rw [anchors]
    exact fun anchor member => ((creating.names anchor member).more _).declare new _ _

theorem createRelationship {r : RelationshipPattern} {left right : Anchor}
    (unreserved : ∀ name ∈ r.name, ∀ n, name ≠ unnamedLabel n)
    (compiled : (Cypher.createRelationship left.label right.label r).run scope =
      .ok (operations, after))
    (creating : Creating b engine store came scope parts nameable l)
    (started : scope.started = true) (one : left ∈ nameable) (other : right ∈ nameable)
    (performed : performAll operations l = .ok l') :
    Creating b engine store came after (parts ++ [.between left right r]) nameable l' ∧
      after.started = true := by
  rw [Part.between]
  obtain ⟨direction, connects⟩ | ⟨direction, connects⟩ := createRelationship_cases compiled
  · rw [direction, if_neg nofun]
    exact creating.connect unreserved connects started one other performed
  · rw [direction, if_pos rfl]
    exact creating.connect unreserved connects started other one performed

theorem createChain {anchors : List Anchor} {chain : List (RelationshipPattern × NodePattern)}
    (unreserved : ∀ link ∈ chain, ∀ name ∈ link.1.name, ∀ n, name ≠ unnamedLabel n)
    (compiled : (Cypher.createChain (anchors.map Anchor.label) chain).run scope =
      .ok (operations, after))
    (creating : Creating b engine store came scope parts nameable l)
    (started : scope.started = true) (reached : ∀ anchor ∈ anchors, anchor ∈ nameable)
    (performed : performAll operations l = .ok l') :
    Creating b engine store came after (parts ++ newEdges anchors chain) nameable l' ∧
      after.started = true := by
  fun_induction newEdges anchors chain generalizing scope parts operations l with
  | case1 left right anchors r node rest ih =>
      obtain ⟨first, middle, others, halfway, one, begun, several, later⟩ :=
        made_append compiled performed
      obtain ⟨here, reached⟩ := List.forall_mem_cons.mp reached
      obtain ⟨created, still⟩ := creating.createRelationship (unreserved _ List.mem_cons_self) one
        started here (reached right List.mem_cons_self) begun
      rw [List.append_cons]
      exact ih (fun link member => unreserved link (List.mem_cons_of_mem _ member)) several created
        still reached later
  | case2 anchors chain apart =>
      have nothing : Cypher.createChain (anchors.map Anchor.label) chain = return [] := by
        cases anchors with
        | nil => rfl
        | cons left anchors =>
            cases anchors with
            | nil => rfl
            | cons right anchors =>
                cases chain with
                | nil => rfl
                | cons link rest => exact absurd rfl (apart left right anchors link.1 link.2 rest rfl)
      rw [nothing] at compiled
      cases compiled
      cases performed
      rw [List.append_nil]
      exact ⟨creating, started⟩

theorem createPathEdges {paths : List (List (Anchor × NodePattern) × PathPattern)}
    (unreserved : ∀ path ∈ paths, ∀ link ∈ path.2.chain, ∀ name ∈ link.1.name, ∀ n,
      name ≠ unnamedLabel n)
    (compiled : (Cypher.createPathEdges (paths.map fun path =>
      (path.1.map (·.1.label), path.2))).run scope = .ok (operations, after))
    (creating : Creating b engine store came scope parts nameable l)
    (started : scope.started = true)
    (reached : ∀ anchor ∈ (paths.flatMap (·.1)).map (·.1), anchor ∈ nameable)
    (performed : performAll operations l = .ok l') :
    Creating b engine store came after
        (parts ++ paths.flatMap fun path => newEdges (path.1.map (·.1)) path.2.chain) nameable l' ∧
      after.started = true := by
  induction paths generalizing scope parts operations l with
  | nil =>
      cases compiled
      cases performed
      rw [List.flatMap_nil, List.append_nil]
      exact ⟨creating, started⟩
  | cons path rest ih =>
      obtain ⟨first, middle, others, halfway, one, begun, several, later⟩ :=
        made_append compiled performed
      rw [List.flatMap_cons, List.map_append] at reached
      have labels : path.1.map (·.1.label) = (path.1.map (·.1)).map Anchor.label := by
        rw [List.map_map]
        rfl
      rw [labels] at one
      obtain ⟨created, still⟩ := creating.createChain (unreserved path List.mem_cons_self) one
        started (fun anchor member => reached anchor (List.mem_append_left _ member)) begun
      rw [List.flatMap_cons, ← List.append_assoc]
      exact ih (fun other member => unreserved other (List.mem_cons_of_mem _ member)) several
        created still (fun anchor member => reached anchor (List.mem_append_right _ member)) later

theorem createPaths {paths : List PathPattern} (some_ : paths ≠ [])
    (reachable : store.graph.Reachable)
    (unreservedNodes : ∀ p ∈ paths, ∀ node ∈ p.nodes, ∀ name ∈ node.name, ∀ n,
      name ≠ unnamedLabel n)
    (unreservedEdges : ∀ p ∈ paths, ∀ link ∈ p.chain, ∀ name ∈ link.1.name, ∀ n,
      name ≠ unnamedLabel n)
    (compiled : (Cypher.createPaths paths).run scope = .ok (operations, after))
    (creating : Creating b engine store came scope [] [] l)
    (performed : performAll operations l = .ok l') :
    Arrives engine store came
        (Follows b store.graph (createdParts b.keys scope.unnamed paths)) l' ∧
      after.started = true := by
  obtain ⟨created, nodes, middle, edges, halfway, first, begun, second, later⟩ :=
    createPaths_parts compiled performed
  obtain ⟨rfl, made, started⟩ :=
    creating.createPathNodes reachable unreservedNodes first begun
  obtain ⟨done, still⟩ := made.createPathEdges
    (fun path member => unreservedEdges path.2 (anchoredPaths_mem path member)) second
    (started (.inr some_)) (fun anchor member => List.mem_append_left _ member) later
  exact ⟨done.begun still, still⟩

end Creating

end Cypher

end PropertyGraph
