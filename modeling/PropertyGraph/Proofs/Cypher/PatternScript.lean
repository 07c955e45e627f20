import PropertyGraph.Cypher.MatchScript
import PropertyGraph.Proofs.Builder.Stages

/-!
What the scripts of patterns are made of. Scripting reads and changes nothing but the scope, so each
part of a pattern has one equation: the operations and the scope after it, from the scope before. A
script that was made tells its parts, which is all that later proofs use of how it was made.
-/

namespace PropertyGraph

variable {ε α β : Type}

theorem ok_bind (a : α) (next : α → Except ε β) : (Except.ok a >>= next) = next a := rfl

theorem error_bind (fault : ε) (next : α → Except ε β) :
    (Except.error fault >>= next) = .error fault := rfl

theorem map_ok (f : α → β) (a : α) : (f <$> (Except.ok a : Except ε α)) = .ok (f a) := rfl

namespace Cypher

open Scripting

def Scope.declared (scope : Scope) (kind : NameKind) (name : Option String) : Scope :=
  match name with
  | none => scope
  | some name => { scope with bindings := Dictionary.put name kind scope.bindings }

@[simp] theorem Scope.declared_started (scope : Scope) (kind : NameKind) (name : Option String) :
    (scope.declared kind name).started = scope.started := by
  cases name <;> rfl

/-- What a name is already bound to. -/
def boundKind? (b : Bindings) (name : Option String) : Option NameKind :=
  name.bind fun name => Dictionary.get? name b

def filterOp (b : Bindings) (key : String) (e : Expression) : Except CompileFault (Op Script) :=
  match e.literal? with
  | some v => .ok (.has key (.eq v))
  | none => do
      let other ← valueScript b e
      return .nested .where_ [.of [.nested .union [.of [ownProperty key], other],
        .append .fold [], .apply .equals, isTrue]]

def filterOps (b : Bindings) (properties : List (String × Expression)) : Except CompileFault Ops :=
  properties.mapM fun entry => filterOp b entry.1 entry.2

def constraintOps (b : Bindings) (node : NodePattern) : Except CompileFault Ops :=
  ((node.labels.map fun label => .hasLabel [label]) ++ ·) <$> filterOps b node.properties

/-- Keeps traversers that stand at what a name is bound to. -/
def sameAs (name : String) : Op Script := .append .where_ [.predicate (.eq (.string name))]

theorem run_bind_ok {first : Scripting α} {next : α → Scripting β} {scope after : Scope} {b : β} :
    (first >>= next).run scope = .ok (b, after) ↔
      ∃ a middle, first.run scope = .ok (a, middle) ∧ (next a).run middle = .ok (b, after) := by
  rw [StateT.run_bind]
  cases first.run scope with
  | error fault =>
      rw [error_bind]
      simp
  | ok reached =>
      obtain ⟨a, middle⟩ := reached
      constructor
      · intro done
        exact ⟨a, middle, rfl, done⟩
      · rintro ⟨_, _, same, done⟩
        cases same
        exact done

theorem isBound_run (name : Option String) (scope : Scope) :
    (isBound name).run scope = .ok ((boundKind? scope.bindings name).isSome, scope) := by
  cases name <;> rfl

theorem bind_run (name : Option String) (kind : NameKind) (scope : Scope) :
    (bind? name kind).run scope = .ok (labelOps name, scope.declared kind name) := by
  cases name <;> rfl

theorem expectNode_run (name : String) (scope : Scope) :
    (expectNode name).run scope =
      match Dictionary.get? name scope.bindings with
      | none => .error (.undefined name)
      | some .node => .ok ((), scope)
      | some _ => .error (.declaredAsRelationship name) := by
  have run : (expectNode name).run scope =
      kindOf scope.bindings name >>= fun kind =>
        (unless kind = .node do
          throw (.declaredAsRelationship name) : Scripting Unit).run scope := by
    simp [expectNode]
  rw [run, kindOf]
  cases Dictionary.get? name scope.bindings with
  | none => rfl
  | some kind => cases kind <;> rfl

theorem propertyFilter_run (key : String) (e : Expression) (scope : Scope) :
    (propertyFilter key e).run scope = (·, scope) <$> filterOp scope.bindings key e := by
  unfold propertyFilter filterOp
  cases e.literal? with
  | some v => rfl
  | none => simp [Scripting.value]

theorem propertyFilters_run (properties : List (String × Expression)) (scope : Scope) :
    (propertyFilters properties).run scope = (·, scope) <$> filterOps scope.bindings properties := by
  unfold propertyFilters filterOps
  induction properties with
  | nil => rfl
  | cons entry rest ih =>
      obtain ⟨key, e⟩ := entry
      rw [List.mapM_cons, List.mapM_cons, StateT.run_bind]
      simp only [propertyFilter_run, map_eq_pure_bind, bind_assoc, pure_bind] at ih ⊢
      simp only [StateT.run_bind, ih, bind_assoc, pure_bind]
      rfl

theorem nodeConstraints_run (node : NodePattern) (scope : Scope) :
    (nodeConstraints node).run scope = (·, scope) <$> constraintOps scope.bindings node := by
  unfold nodeConstraints constraintOps
  rw [StateT.run_bind, propertyFilters_run]
  cases filterOps scope.bindings node.properties <;> rfl

theorem matchStart_run (node : NodePattern) (scope : Scope) :
    (matchStart node).run scope =
      match boundKind? scope.bindings node.name with
      | none => (fun constraints => (.vertices :: constraints ++ labelOps node.name,
          { scope with started := true }.declared .node node.name)) <$>
            constraintOps scope.bindings node
      | some .node => (fun constraints =>
          (.select [node.name.getD ""] :: constraints, scope)) <$> constraintOps scope.bindings node
      | some _ => .error (.declaredAsRelationship (node.name.getD "")) := by
  have fresh : (matchStart.fresh node).run scope =
      (fun constraints => (.vertices :: constraints ++ labelOps node.name,
        { scope with started := true }.declared .node node.name)) <$>
          constraintOps scope.bindings node := by
    have started : Scripting.start.run scope = .ok ((), { scope with started := true }) := rfl
    rw [matchStart.fresh, StateT.run_bind, started, ok_bind, StateT.run_bind, nodeConstraints_run]
    change (_ <$> constraintOps scope.bindings node) >>= _ = _
    cases constraintOps scope.bindings node with
    | error fault => rfl
    | ok constraints => rw [map_ok, ok_bind, StateT.run_bind, bind_run]; rfl
  unfold matchStart
  cases named : node.name with
  | none =>
      rw [named] at fresh
      exact fresh
  | some name =>
      cases known : Dictionary.get? name scope.bindings with
      | none => simpa [named, boundKind?, isBound_run, known, ok_bind] using fresh
      | some kind =>
          cases kind <;>
            simp [boundKind?, isBound_run, known, expectNode_run, nodeConstraints_run, ok_bind,
              error_bind]

theorem matchEnd_run (node : NodePattern) (scope : Scope) :
    (matchEnd node).run scope =
      match boundKind? scope.bindings node.name with
      | none => (fun constraints => (constraints ++ labelOps node.name,
          scope.declared .node node.name)) <$> constraintOps scope.bindings node
      | some .node => (fun constraints =>
          (constraints ++ [sameAs (node.name.getD "")], scope)) <$>
            constraintOps scope.bindings node
      | some _ => .error (.declaredAsRelationship (node.name.getD "")) := by
  have fresh : (matchEnd.fresh node).run scope =
      (fun constraints => (constraints ++ labelOps node.name,
        scope.declared .node node.name)) <$> constraintOps scope.bindings node := by
    rw [matchEnd.fresh, StateT.run_bind, nodeConstraints_run]
    cases constraintOps scope.bindings node with
    | error fault => rfl
    | ok constraints => rw [map_ok, ok_bind, StateT.run_bind, bind_run]; rfl
  unfold matchEnd
  cases named : node.name with
  | none =>
      rw [named] at fresh
      exact fresh
  | some name =>
      cases known : Dictionary.get? name scope.bindings with
      | none => simpa [named, boundKind?, isBound_run, known, ok_bind] using fresh
      | some kind =>
          cases kind <;>
            simp [boundKind?, isBound_run, known, expectNode_run, nodeConstraints_run, sameAs,
              ok_bind, error_bind]

/-- The body of a loop along a path of variable length. -/
def hopOps (r : RelationshipPattern) (filters : Ops) : Ops :=
  edgeStep r.direction r.types :: filters ++ labelOps r.name
    ++ [vertexStep r.direction, .append .simplePath []]

theorem matchRelationship_run (r : RelationshipPattern) (scope : Scope) :
    (matchRelationship r).run scope =
      match boundKind? scope.bindings r.name, r.length with
      | some _, _ => .error (.relationshipDeclared (r.name.getD ""))
      | none, none => (fun filters =>
          (edgeStep r.direction r.types :: filters ++ labelOps r.name ++ [vertexStep r.direction],
            scope.declared .relationship r.name)) <$> filterOps scope.bindings r.properties
      | none, some range =>
          if range.max = some 0 then .ok ([], scope.declared .relationships r.name)
          else (fun filters =>
            (pathLoop (hopOps r filters) range, scope.declared .relationships r.name)) <$>
              filterOps (scope.declared .relationships r.name).bindings r.properties := by
  unfold matchRelationship
  cases known : boundKind? scope.bindings r.name with
  | some kind =>
      rw [StateT.run_bind, isBound_run, known, ok_bind]
      rfl
  | none =>
      rw [StateT.run_bind, isBound_run, known, ok_bind]
      cases r.length with
      | none =>
          change (propertyFilters r.properties >>= _).run scope = _
          rw [StateT.run_bind, propertyFilters_run]
          cases filterOps scope.bindings r.properties with
          | error fault => rfl
          | ok filters => rw [map_ok, ok_bind, StateT.run_bind, bind_run]; rfl
      | some range =>
          have declares : (forM r.name (declare .relationships)).run scope =
              .ok ((), scope.declared .relationships r.name) := by
            cases r.name <;> rfl
          change (forM r.name (declare .relationships) >>= _).run scope = _
          rw [StateT.run_bind, declares, ok_bind]
          by_cases empty : range.max = some 0
          · simp only [if_pos empty]
            rfl
          · simp only [if_neg empty]
            rw [StateT.run_bind, propertyFilters_run]
            cases filterOps (scope.declared .relationships r.name).bindings r.properties <;> rfl

section Parts

variable {scope after : Scope} {operations : Ops}

theorem run_append_ok {first second : Scripting Ops}
    (compiled : (do return (← first) ++ (← second) : Scripting Ops).run scope =
      .ok (operations, after)) :
    ∃ front middle back, first.run scope = .ok (front, middle) ∧
      second.run middle = .ok (back, after) ∧ operations = front ++ back := by
  obtain ⟨front, middle, begun, compiled⟩ := run_bind_ok.mp compiled
  obtain ⟨back, last, ended, same⟩ := run_bind_ok.mp compiled
  cases same
  exact ⟨front, middle, back, begun, ended, rfl⟩

theorem made_append {σ : Type} [Backend σ] {b c : σ} {first second : Scripting Ops}
    (compiled : (do return (← first) ++ (← second) : Scripting Ops).run scope =
      .ok (operations, after)) (performed : Script.performAll operations b = .ok c) :
    ∃ front middle back between, first.run scope = .ok (front, middle) ∧
      Script.performAll front b = .ok between ∧ second.run middle = .ok (back, after) ∧
      Script.performAll back between = .ok c := by
  obtain ⟨front, middle, back, begun, ended, rfl⟩ := run_append_ok compiled
  obtain ⟨between, one, later⟩ := Script.performed_append.mp performed
  exact ⟨front, middle, back, between, begun, one, ended, later⟩

/-- A path starts at every vertex, if the name of its first node is new, and otherwise at the one
that the name stands for. -/
theorem matchStart_cases {node : NodePattern}
    (compiled : (matchStart node).run scope = .ok (operations, after)) :
    ∃ constraints, constraintOps scope.bindings node = .ok constraints ∧
      ((boundKind? scope.bindings node.name = none ∧
          operations = .vertices :: constraints ++ labelOps node.name ∧
          after = { scope with started := true }.declared .node node.name) ∨
        ∃ name, node.name = some name ∧ Dictionary.get? name scope.bindings = some .node ∧
          operations = .select [name] :: constraints ∧ after = scope) := by
  rw [matchStart_run] at compiled
  split at compiled
  · next new =>
      obtain ⟨constraints, found, same⟩ := map_eq_ok.mp compiled
      cases same
      exact ⟨constraints, found, .inl ⟨new, rfl, rfl⟩⟩
  · next known =>
      obtain ⟨name, named, bound⟩ := Option.bind_eq_some_iff.mp known
      obtain ⟨constraints, found, same⟩ := map_eq_ok.mp compiled
      cases same
      exact ⟨constraints, found, .inr ⟨name, named, bound, by rw [named]; rfl, rfl⟩⟩
  · cases compiled

theorem matchEnd_cases {node : NodePattern}
    (compiled : (matchEnd node).run scope = .ok (operations, after)) :
    ∃ constraints, constraintOps scope.bindings node = .ok constraints ∧
      ((boundKind? scope.bindings node.name = none ∧
          operations = constraints ++ labelOps node.name ∧
          after = scope.declared .node node.name) ∨
        ∃ name, node.name = some name ∧ Dictionary.get? name scope.bindings = some .node ∧
          operations = constraints ++ [sameAs name] ∧ after = scope) := by
  rw [matchEnd_run] at compiled
  split at compiled
  · next new =>
      obtain ⟨constraints, found, same⟩ := map_eq_ok.mp compiled
      cases same
      exact ⟨constraints, found, .inl ⟨new, rfl, rfl⟩⟩
  · next known =>
      obtain ⟨name, named, bound⟩ := Option.bind_eq_some_iff.mp known
      obtain ⟨constraints, found, same⟩ := map_eq_ok.mp compiled
      cases same
      exact ⟨constraints, found, .inr ⟨name, named, bound, by rw [named]; rfl, rfl⟩⟩
  · cases compiled

/-- The name of a relationship is new. One step finds a single relationship, a loop those of a path;
a path that may have no relationship at all needs no loop. -/
theorem matchRelationship_cases {r : RelationshipPattern}
    (compiled : (matchRelationship r).run scope = .ok (operations, after)) :
    boundKind? scope.bindings r.name = none ∧
      ((r.length = none ∧ after = scope.declared .relationship r.name ∧
          ∃ filters, filterOps scope.bindings r.properties = .ok filters ∧
            operations = edgeStep r.direction r.types :: filters ++ labelOps r.name
              ++ [vertexStep r.direction]) ∨
        ∃ range, r.length = some range ∧ after = scope.declared .relationships r.name ∧
          ((range.max = some 0 ∧ operations = []) ∨
            range.max ≠ some 0 ∧ ∃ filters, filterOps after.bindings r.properties = .ok filters ∧
              operations = pathLoop (hopOps r filters) range)) := by
  rw [matchRelationship_run] at compiled
  split at compiled
  · cases compiled
  · next new single =>
      obtain ⟨filters, found, same⟩ := map_eq_ok.mp compiled
      cases same
      exact ⟨new, .inl ⟨single, rfl, filters, found, rfl⟩⟩
  · next range new several =>
      split at compiled
      · next empty =>
          cases compiled
          exact ⟨new, .inr ⟨range, several, rfl, .inl ⟨empty, rfl⟩⟩⟩
      · next loops =>
          obtain ⟨filters, found, same⟩ := map_eq_ok.mp compiled
          cases same
          exact ⟨new, .inr ⟨range, several, rfl, .inr ⟨loops, filters, found, rfl⟩⟩⟩

theorem matchChain_cons {r : RelationshipPattern} {node : NodePattern}
    {rest : List (RelationshipPattern × NodePattern)}
    (compiled : (matchChain ((r, node) :: rest)).run scope = .ok (operations, after)) :
    ∃ edge walked vertex reached others, (matchRelationship r).run scope = .ok (edge, walked) ∧
      (matchEnd node).run walked = .ok (vertex, reached) ∧
      (matchChain rest).run reached = .ok (others, after) ∧
      operations = edge ++ vertex ++ others := by
  obtain ⟨edge, walked, first, compiled⟩ := run_bind_ok.mp compiled
  obtain ⟨vertex, reached, second, compiled⟩ := run_bind_ok.mp compiled
  obtain ⟨others, last, third, same⟩ := run_bind_ok.mp compiled
  cases same
  exact ⟨edge, walked, vertex, reached, others, first, second, third, rfl⟩

/-- A clause finds its patterns, and then asks for its condition. -/
theorem matchClause_cases {m : MatchClause}
    (compiled : (matchClause m).run scope = .ok (operations, after)) :
    ∃ paths, (matchPaths m.patterns).run scope = .ok (paths, after) ∧
      ((m.condition = none ∧ operations = paths) ∨
        ∃ e inside, m.condition = some e ∧ conditionOps after.bindings e = .ok inside ∧
          operations = paths ++ [.nested .where_ [.of inside]]) := by
  obtain ⟨paths, middle, found, compiled⟩ := run_bind_ok.mp compiled
  split at compiled
  · next unconditional =>
      cases compiled
      exact ⟨operations, found, .inl ⟨unconditional, rfl⟩⟩
  · next e asked =>
      have filter : (fun script => (paths ++ [.nested .where_ [script]], middle)) <$>
          conditionScript middle.bindings e = .ok (operations, after) := by
        simpa using compiled
      obtain ⟨condition, scripted, same⟩ := map_eq_ok.mp filter
      cases same
      obtain ⟨inside, asks, rfl⟩ := map_eq_ok.mp scripted
      exact ⟨paths, found, .inr ⟨e, inside, asked, asks, rfl⟩⟩

end Parts

end Cypher

end PropertyGraph
