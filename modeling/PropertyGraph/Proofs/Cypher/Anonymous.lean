import PropertyGraph.Proofs.Builder.Equivalence
import PropertyGraph.Proofs.Cypher.Scoping

/-!
Names for nodes that have none. A name that nothing else mentions is a label that no step looks up.
The step that gives the label does one thing more: it stands between the steps before the node and
those after it. If the node has nothing but this step, and a loop comes right before it, an emission
that comes right after it goes to that loop unless the node is named.
-/

namespace PropertyGraph

open Cypher

/-- A node of a path, at its start or behind a relationship, and all that is around it. -/
inductive NodePlace where
  | start (node : NodePattern) (chain : List (RelationshipPattern × NodePattern))
  | behind (first : NodePattern) (before : List (RelationshipPattern × NodePattern))
      (r : RelationshipPattern) (node : NodePattern)
      (after : List (RelationshipPattern × NodePattern))

namespace NodePlace

/-- The path with a name for the node, or none. -/
def path (name : Option String) : NodePlace → PathPattern
  | .start node chain => ⟨{ node with name }, chain⟩
  | .behind first before r node after => ⟨first, before ++ (r, { node with name }) :: after⟩

/-- A loop would take an emission across the node, were it anonymous. -/
def LeaksEmission : NodePlace → Prop
  | .start _ _ => False
  | .behind _ before r node after =>
      ((chainShape before).then_
          (r.shape.then_ { node with name := none }.shape)).ends false = true ∧
        (chainShape after).opens false = true

end NodePlace

/-- A node of a MATCH pattern of a query, and all that is around it. -/
structure QueryPlace where
  earlier : List MatchClause
  front : List PathPattern
  node : NodePlace
  back : List PathPattern
  condition : Option Expression
  later : List MatchClause
  /-- The other clauses. -/
  rest : Query

/-- The query with a name for the node, or none. -/
def QueryPlace.query (name : Option String) (place : QueryPlace) : Query :=
  { place.rest with
    matches_ := place.earlier ++
      ⟨place.front ++ place.node.path name :: place.back, place.condition⟩ :: place.later }

theorem Op.Opening.append {α : Type} {emits : Bool} {first second : List (Op α)}
    (opening : Op.Opening emits first) (next : Op.Open second) :
    Op.Opening emits (first ++ second) := by
  cases emits with
  | false => exact Op.Open.append opening next
  | true =>
      obtain ⟨loop, more, stands, rfl⟩ := opening
      exact ⟨loop, more ++ second, stands, rfl⟩

namespace Cypher

open Script Scripting

variable {x : String} {operations operations' : Ops}

/-- Two scripts differ in one label, which can be left out. -/
def Labels (x : String) (operations operations' : Ops) : Prop :=
  ∃ place : Labelling x, operations = place.plain ∧ operations' = place.labelled

namespace Labels

theorem front {first : Ops} (labels : Labels x operations operations')
    (inside : (View.without x).AdmitsOps first) :
    Labels x (first ++ operations) (first ++ operations') := by
  obtain ⟨place, rfl, rfl⟩ := labels
  refine ⟨⟨first ++ place.before, place.after, ?_, ?_, place.emits, place.opening, ?_⟩, ?_, ?_⟩
  · rw [List.append_assoc]
    exact View.admitsOps_append.mpr ⟨inside, place.admitted⟩
  · obtain ⟨op, member, stands⟩ := place.standing
    exact ⟨op, List.mem_append_right _ member, stands⟩
  · intro emits loop
    rw [List.foldl_append]
    exact place.apart emits _
  · exact (List.append_assoc _ _ _).symm
  · exact (List.append_assoc _ _ _).symm

theorem back {more : Ops} (labels : Labels x operations operations')
    (follow : Follow (View.without x) more) :
    Labels x (operations ++ more) (operations' ++ more) := by
  obtain ⟨place, rfl, rfl⟩ := labels
  refine ⟨⟨place.before, place.after ++ more, ?_, place.standing, place.emits,
    place.opening.append follow.2, place.apart⟩, ?_, ?_⟩
  · rw [← List.append_assoc]
    exact View.admitsOps_append.mpr ⟨place.admitted, follow.1⟩
  · exact List.append_assoc _ _ _
  · exact List.append_assoc _ _ _

end Labels

/-- While the name is not bound, the second script has the label that the first has not, and binds
the name to a node. -/
def Introduces (x : String) (m m' : Scripting Ops) : Prop :=
  ∀ s : Scope, Dictionary.get? x s.bindings = none →
    Alike (fun left right => Labels x left.1 right.1 ∧ left.2.SameBut x none (some .node) right.2)
      (m.run s) (m'.run s)

theorem Ignores.unbound {α : Type} {P : α → Prop} {m : Scripting α} (ignores : Ignores x P m)
    {s : Scope} (unbound : Dictionary.get? x s.bindings = none) :
    Alike (fun left right => left = right ∧ P left.1 ∧ Dictionary.get? x left.2.bindings = none)
      (m.run s) (m.run s) := by
  have related := ignores none none s s (.refl s unbound)
  cases done : m.run s with
  | error fault => exact .error fault
  | ok found =>
      rw [done] at related
      cases related with
      | ok same => exact .ok ⟨rfl, same.2.1, same.2.2.here⟩

namespace Introduces

variable {m m' rest : Scripting Ops}

theorem front {first : Scripting Ops} (introduces : Introduces x m m')
    (ignores : Ignores x (View.without x).AdmitsOps first) :
    Introduces x (do return (← first) ++ (← m)) (do return (← first) ++ (← m')) := by
  intro s unbound
  rw [StateT.run_bind, StateT.run_bind]
  refine (ignores.unbound unbound).bind fun found _ ⟨same, inside, still⟩ => ?_
  subst same
  rw [StateT.run_bind, StateT.run_bind]
  refine (introduces found.2 still).bind fun left right ⟨labels, scopes⟩ => ?_
  exact .ok ⟨labels.front inside, scopes⟩

theorem back (introduces : Introduces x m m')
    (ignores : Ignores x (Follow (View.without x)) rest) :
    Introduces x (do return (← m) ++ (← rest)) (do return (← m') ++ (← rest)) := by
  intro s unbound
  rw [StateT.run_bind, StateT.run_bind]
  refine (introduces s unbound).bind fun left right ⟨labels, scopes⟩ => ?_
  rw [StateT.run_bind, StateT.run_bind]
  refine (ignores _ _ _ _ scopes).bind fun more more' ⟨same, follow, others⟩ => ?_
  rw [← same]
  exact .ok ⟨labels.back follow, others⟩

end Introduces

/-- While the name is not bound, the second script ends in the label and declares the name, and this
is all it does more than the first. -/
def Names (x : String) (m m' : Scripting Ops) : Prop :=
  ∀ s : Scope, Dictionary.get? x s.bindings = none →
    m'.run s = (fun found => (found.1 ++ [.labelled .as_ [x]], found.2.declared .node (some x))) <$>
      m.run s

namespace Names

variable {m m' : Scripting Ops}

theorem front {first : Scripting Ops} {P : Ops → Prop} (names : Names x m m')
    (ignores : Ignores x P first) :
    Names x (do return (← first) ++ (← m)) (do return (← first) ++ (← m')) := by
  intro s unbound
  rw [StateT.run_bind, StateT.run_bind]
  have still := ignores.unbound unbound
  cases done : first.run s with
  | error fault => rfl
  | ok found =>
      rw [done] at still
      cases still with
      | ok same =>
          simp only [ok_bind, StateT.run_bind, names found.2 same.2.2]
          cases m.run found.2 with
          | error fault => rfl
          | ok more =>
              simp only [map_ok, ok_bind, ← List.append_assoc]
              rfl

/-- What follows may come right behind the label, whether it begins with an emission or not. -/
theorem introduces {rest : Scripting Ops} {shape other : Shape} (names : Names x m m')
    (ignores : Ignores x (fun found => HasShape (View.without x) shape found ∧
      ∃ op ∈ found, op.stands = true) m)
    (ignoresRest : Ignores x (HasShape (View.without x) other) rest)
    (apart : other.opens false = true → ∀ loop, shape.ends loop = false) :
    Introduces x (do return (← m) ++ (← rest)) (do return (← m') ++ (← rest)) := by
  intro s unbound
  rw [StateT.run_bind, StateT.run_bind, names s unbound]
  have still := ignores.unbound unbound
  cases done : m.run s with
  | error fault => exact .error fault
  | ok found =>
      rw [done] at still
      cases still with
      | ok same =>
          obtain ⟨_, ⟨shaped, standing⟩, free⟩ := same
          rw [map_ok, ok_bind, ok_bind, StateT.run_bind, StateT.run_bind]
          have scopes := Scope.SameBut.declares_one found.2 free .node
          refine (ignoresRest _ _ _ _ scopes).bind fun more more' ⟨equal, shapedRest, after⟩ => ?_
          have opening := shapedRest.opens false [] nofun
          rw [List.append_nil] at opening
          rw [← equal]
          refine .ok ⟨⟨⟨found.1, more.1, ?_, standing, _, opening, fun emits loop => ?_⟩, rfl, ?_⟩,
            after⟩
          · exact View.admitsOps_append.mpr ⟨shaped.admitted, shapedRest.admitted⟩
          · rw [shaped.ends, apart emits]
          · exact List.append_assoc _ _ _

end Names

theorem matchStart_names (node : NodePattern) :
    Names x (matchStart { node with name := none }) (matchStart { node with name := some x }) := by
  intro s unbound
  have free : boundKind? s.bindings (some x) = none := unbound
  rw [matchStart_run, matchStart_run]
  dsimp only
  rw [free]
  change _ <$> constraintOps s.bindings node = _ <$> _ <$> constraintOps s.bindings node
  cases constraintOps s.bindings node with
  | error fault => rfl
  | ok constraints =>
      simp only [map_ok, labelOps]
      simp [Scope.declared]

theorem matchEnd_names (node : NodePattern) :
    Names x (matchEnd { node with name := none }) (matchEnd { node with name := some x }) := by
  intro s unbound
  have free : boundKind? s.bindings (some x) = none := unbound
  rw [matchEnd_run, matchEnd_run]
  dsimp only
  rw [free]
  change _ <$> constraintOps s.bindings node = _ <$> _ <$> constraintOps s.bindings node
  cases constraintOps s.bindings node with
  | error fault => rfl
  | ok constraints => simp [labelOps, Scope.declared]

def matchHop (r : RelationshipPattern) (node : NodePattern) : Scripting Ops := do
  let edge ← matchRelationship r
  return edge ++ (← matchEnd node)

def matchHops (before : List (RelationshipPattern × NodePattern)) (r : RelationshipPattern)
    (node : NodePattern) : Scripting Ops := do
  let walked ← matchChain before
  return walked ++ (← matchHop r node)

/-- The script of a path as far as a node behind a relationship. -/
def matchUpTo (first : NodePattern) (before : List (RelationshipPattern × NodePattern))
    (r : RelationshipPattern) (node : NodePattern) : Scripting Ops := do
  let start ← matchStart first
  return start ++ (← matchHops before r node)

theorem matchPath_behind (first : NodePattern)
    (before : List (RelationshipPattern × NodePattern)) (r : RelationshipPattern)
    (node : NodePattern) (after : List (RelationshipPattern × NodePattern)) :
    matchPath ⟨first, before ++ (r, node) :: after⟩ = do
      let front ← matchUpTo first before r node
      return front ++ (← matchChain after) := by
  have chain : matchChain (before ++ (r, node) :: after) = do
      let walked ← matchChain before
      let edge ← matchRelationship r
      let vertex ← matchEnd node
      return walked ++ (edge ++ (vertex ++ (← matchChain after))) := by
    induction before with
    | nil => simp [matchChain]
    | cons link before ih =>
        obtain ⟨r', node'⟩ := link
        simp only [List.cons_append, matchChain, ih, bind_assoc, pure_bind, List.append_assoc]
  simp only [matchPath, matchUpTo, matchHops, matchHop, chain, bind_assoc, pure_bind,
    List.append_assoc]

theorem HasShape.standing {view : View} {shape : Shape} (shaped : HasShape view shape operations)
    (closed : shape.opens false = false) (stands : shape.ends true = false) :
    ∃ op ∈ operations, op.stands = true := by
  cases operations with
  | nil =>
      have same := shaped.ends true
      rw [stands] at same
      cases same
  | cons op rest => exact ⟨op, List.mem_cons_self, (shaped.follow closed).2 op rfl⟩

variable {first : NodePattern} {before after : List (RelationshipPattern × NodePattern)}
  {r : RelationshipPattern}

theorem matchUpTo_ignores {node : NodePattern} (freshFirst : x ∉ first.names)
    (freshBefore : x ∉ before.flatMap fun link => link.1.names ++ link.2.names)
    (freshEdge : x ∉ r.names) (freshNode : x ∉ node.names) :
    Ignores x (fun found => HasShape (View.without x)
        (Shape.plain.then_ ((chainShape before).then_ (r.shape.then_ node.shape))) found ∧
      ∃ op ∈ found, op.stands = true) (matchUpTo first before r node) := by
  have hop : Ignores x (HasShape (View.without x) (r.shape.then_ node.shape)) (matchHop r node) :=
    (matchRelationship_ignores freshEdge).bind fun _ shaped =>
      (matchEnd_ignores freshNode).bind fun _ shapedNode => .pure (shaped.append shapedNode)
  have hops : Ignores x (HasShape (View.without x)
      ((chainShape before).then_ (r.shape.then_ node.shape))) (matchHops before r node) :=
    (matchChain_ignores freshBefore).bind fun _ shaped =>
      hop.bind fun _ shapedHop => .pure (shaped.append shapedHop)
  refine (matchStart_ignores freshFirst).bind fun start shaped => ?_
  refine hops.bind fun others shapedOthers => .pure ⟨shaped.append shapedOthers, ?_⟩
  obtain ⟨op, member, stands⟩ := shaped.standing rfl rfl
  exact ⟨op, List.mem_append_left _ member, stands⟩

theorem matchUpTo_names (node : NodePattern) (freshFirst : x ∉ first.names)
    (freshBefore : x ∉ before.flatMap fun link => link.1.names ++ link.2.names)
    (freshEdge : x ∉ r.names) :
    Names x (matchUpTo first before r { node with name := none })
      (matchUpTo first before r { node with name := some x }) :=
  (((matchEnd_names node).front (matchRelationship_ignores freshEdge)).front
    (matchChain_ignores freshBefore)).front (matchStart_ignores freshFirst)

theorem path_introduces {place : NodePlace} (fresh : x ∉ (place.path none).names)
    (apart : ¬place.LeaksEmission) :
    Introduces x (matchPath (place.path none)) (matchPath (place.path (some x))) := by
  cases place with
  | start node chain =>
      simp only [NodePlace.path, PathPattern.names, List.mem_append, not_or] at fresh
      have start : Ignores x (fun found => HasShape (View.without x) .plain found ∧
          ∃ op ∈ found, op.stands = true) (matchStart { node with name := none }) :=
        (matchStart_ignores fresh.1).imp fun _ shaped => ⟨shaped, shaped.standing rfl rfl⟩
      exact (matchStart_names node).introduces start (matchChain_ignores fresh.2) fun _ _ => rfl
  | behind first before r node after =>
      simp only [NodePlace.path, PathPattern.names, List.flatMap_append, List.flatMap_cons,
        List.mem_append, not_or] at fresh
      obtain ⟨freshFirst, freshBefore, ⟨freshEdge, freshNode⟩, freshAfter⟩ := fresh
      rw [NodePlace.path, NodePlace.path, matchPath_behind, matchPath_behind]
      have upTo := matchUpTo_ignores freshFirst freshBefore freshEdge freshNode
      refine (matchUpTo_names node freshFirst freshBefore freshEdge).introduces upTo
        (matchChain_ignores freshAfter) fun opens loop => ?_
      exact Bool.eq_false_iff.mpr fun ends => apart ⟨ends, opens⟩

theorem paths_introduce {front back : List PathPattern} {place : NodePlace}
    (freshFront : x ∉ front.flatMap PathPattern.names) (fresh : x ∉ (place.path none).names)
    (freshBack : x ∉ back.flatMap PathPattern.names) (apart : ¬place.LeaksEmission) :
    Introduces x (matchPaths (front ++ place.path none :: back))
      (matchPaths (front ++ place.path (some x) :: back)) := by
  induction front with
  | nil => exact (path_introduces fresh apart).back (matchPaths_ignores freshBack)
  | cons p rest ih =>
      rw [List.flatMap_cons, List.mem_append, not_or] at freshFront
      have ignores := (matchPath_ignores freshFront.1).imp fun _ follow => follow.1
      exact (ih freshFront.2).front ignores

theorem clause_introduces {paths paths' : List PathPattern} {condition : Option Expression}
    (introduces : Introduces x (matchPaths paths) (matchPaths paths'))
    (fresh : x ∉ (condition.map Expression.names).getD []) :
    Introduces x (matchClause ⟨paths, condition⟩) (matchClause ⟨paths', condition⟩) := by
  cases condition with
  | none =>
      have none_ : Ignores x (Follow (View.without x)) (pure []) := .pure .nil
      have whole := introduces.back none_
      simpa [matchClause] using whole
  | some e =>
      have whole := introduces.back (condition_ignores fresh)
      simpa [matchClause] using whole

theorem clauses_introduce {earlier later : List MatchClause} {m m' : MatchClause}
    (freshEarlier : x ∉ earlier.flatMap MatchClause.names)
    (introduces : Introduces x (matchClause m) (matchClause m'))
    (freshLater : x ∉ later.flatMap MatchClause.names) :
    Introduces x (matchClauses (earlier ++ m :: later))
      (matchClauses (earlier ++ m' :: later)) := by
  induction earlier with
  | nil => exact introduces.back (matchClauses_ignores freshLater)
  | cons clause rest ih =>
      rw [List.flatMap_cons, List.mem_append, not_or] at freshEarlier
      have ignores := (matchClause_ignores freshEarlier.1).imp fun _ follow => follow.1
      exact (ih freshEarlier.2).front ignores

theorem query_introduces {place : QueryPlace} (fresh : x ∉ (place.query none).names)
    (reserved : ∀ n, x ≠ unnamedLabel n) (apart : ¬place.node.LeaksEmission) :
    Introduces x (queryOps (place.query none)) (queryOps (place.query (some x))) := by
  have later : Ignores x (Follow (View.without x)) (laterOps (place.query none)) :=
    laterOps_ignore fresh reserved
  simp only [Query.names, QueryPlace.query, MatchClause.names, List.flatMap_append,
    List.flatMap_cons, List.mem_append, not_or] at fresh
  obtain ⟨⟨⟨⟨⟨earlier, ⟨⟨front, node, back⟩, condition⟩, after⟩, _⟩, _⟩, _⟩, _⟩ := fresh
  rw [queryOps_eq, queryOps_eq]
  have paths := paths_introduce front node back apart
  exact (clauses_introduce earlier (clause_introduces paths condition) after).back later

end Cypher

theorem QueryPlace.builds_alike {place : QueryPlace} {x : String}
    (fresh : x ∉ (place.query none).names) (reserved : ∀ n, x ≠ unnamedLabel n)
    (apart : ¬place.node.LeaksEmission) :
    Alike Live.Equivalent ((place.query none).buildOn Live.onGraph)
      ((place.query (some x)).buildOn Live.onGraph) := by
  refine Query.buildOn_alike ((query_introduces fresh reserved apart .empty rfl).imp ?_)
  rintro found found' ⟨⟨labelling, left, right⟩, _⟩
  rw [left, right]
  exact labelling.performs_alike

/-- Giving an anonymous node of a MATCH pattern a fresh name changes neither the rows of a query nor
what it does, unless a loop right before the node would take the emission right behind it. -/
theorem naming_a_node_changes_nothing (client : Client) {place : QueryPlace} {x : String}
    (fresh : x ∉ (place.query none).names) (reserved : ∀ n, x ≠ unnamedLabel n)
    (apart : ¬place.node.LeaksEmission) :
    client.submitStatement ⟨false, place.query (some x)⟩ =
      client.submitStatement ⟨false, place.query none⟩ :=
  (client.submitStatement_eq (place.builds_alike fresh reserved apart)).symm

/-- `MATCH (a)-[*1..1]->()-[*least..1]->(b) RETURN id(a), id(b)`, with the node in between open. -/
def QueryPlace.betweenLoops (least : Nat) : QueryPlace where
  earlier := []
  front := []
  node := .behind (.named "a") [] (.forward (some ⟨1, some 1⟩)) ⟨none, [], []⟩
    [(.forward (some ⟨least, some 1⟩), .named "b")]
  back := []
  condition := none
  later := []
  rest := ⟨[], [], [], none, some (.ids ["a", "b"])⟩

/-- The loop before an anonymous node takes the emission behind it, and the loop behind it then
emits nothing but its last vertices. -/
theorem anonymous_node_leaks_emission :
    (QueryPlace.betweenLoops 0).node.LeaksEmission ∧
      (Client.onOneEdge.submitStatement ⟨false, (QueryPlace.betweenLoops 0).query none⟩).1 =
        .rows [] ∧
      (Client.onOneEdge.submitStatement ⟨false, (QueryPlace.betweenLoops 0).query (some "x")⟩).1 =
        .rows [[("id(a)", .int 1), ("id(b)", .int 2)]] :=
  ⟨⟨rfl, rfl⟩, rfl, rfl⟩

theorem node_between_gated_loops_may_be_named :
    ("x" ∉ ((QueryPlace.betweenLoops 1).query none).names ∧
      (∀ n, "x" ≠ Cypher.unnamedLabel n) ∧ ¬(QueryPlace.betweenLoops 1).node.LeaksEmission) ∧
    Client.onOneEdge.submitStatement ⟨false, (QueryPlace.betweenLoops 1).query (some "x")⟩ =
      Client.onOneEdge.submitStatement ⟨false, (QueryPlace.betweenLoops 1).query none⟩ := by
  have fresh : "x" ∉ ((QueryPlace.betweenLoops 1).query none).names := by decide
  have reserved (n : Nat) : "x" ≠ Cypher.unnamedLabel n := by
    intro same
    have length := congrArg String.length same
    rw [Cypher.unnamedLabel, String.length_append] at length
    have short : "x".length < "  UNNAMED".length := by decide
    omega
  have apart : ¬(QueryPlace.betweenLoops 1).node.LeaksEmission := fun leaks => nomatch leaks.2
  exact ⟨⟨fresh, reserved, apart⟩, naming_a_node_changes_nothing .onOneEdge fresh reserved apart⟩

end PropertyGraph
