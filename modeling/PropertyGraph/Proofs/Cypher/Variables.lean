import PropertyGraph.Proofs.Builder.Stages
import PropertyGraph.Proofs.Cypher.PatternScript
import PropertyGraph.Proofs.Graph.Consistency

/-!
The variables of MATCH clauses. A clause that is accepted binds the names of the nodes and
relationships in its patterns, and no others.
-/

namespace PropertyGraph

/-- The names of the nodes and relationships of a path. -/
def PathPattern.variables (p : PathPattern) : List String :=
  p.start.name.toList ++ p.chain.flatMap fun link => link.1.name.toList ++ link.2.name.toList

def MatchClause.variables (m : MatchClause) : List String :=
  m.patterns.flatMap PathPattern.variables

namespace Cypher

open Scripting

variable {α β : Type}

/-- Where it succeeds, scripting binds these names and no others. -/
def BindsExactly (names : List String) (m : Scripting α) : Prop :=
  ∀ scope a after, m.run scope = .ok (a, after) → ∀ name,
    (Dictionary.get? name after.bindings).isSome ↔
      (Dictionary.get? name scope.bindings).isSome ∨ name ∈ names

namespace BindsExactly

variable {names others : List String} {m : Scripting α}

theorem pure (a : α) : BindsExactly [] (Pure.pure a : Scripting α) := by
  rintro scope _ _ ⟨⟩ name
  simp

theorem bind {next : α → Scripting β} (first : BindsExactly names m)
    (then_ : ∀ a, BindsExactly others (next a)) : BindsExactly (names ++ others) (m >>= next) := by
  intro scope b after done name
  obtain ⟨a, middle, begun, ended⟩ := run_bind_ok.mp done
  rw [then_ a _ _ _ ended, first _ _ _ begun, List.mem_append, or_assoc]

theorem map (binds : BindsExactly names m) (f : α → β) :
    BindsExactly names (m >>= fun a => Pure.pure (f a)) := by
  have whole := binds.bind fun a => BindsExactly.pure (f a)
  rwa [List.append_nil] at whole

theorem reading {m : Scripting α} {f : Scope → Except CompileFault α}
    (run : ∀ scope, m.run scope = (·, scope) <$> f scope) : BindsExactly [] m := by
  intro scope a after done name
  rw [run] at done
  obtain ⟨_, _, same⟩ := map_eq_ok.mp done
  cases same
  simp

end BindsExactly

theorem declared_isSome (scope : Scope) (kind : NameKind) (given : Option String) (name : String) :
    (Dictionary.get? name (scope.declared kind given).bindings).isSome ↔
      (Dictionary.get? name scope.bindings).isSome ∨ name ∈ given.toList := by
  cases given with
  | none => simp [Scope.declared]
  | some other =>
      rw [Scope.declared, Dictionary.get?_put]
      by_cases same : name = other <;> simp [same]

theorem get?_declared (scope : Scope) (kind : NameKind) (name : String) :
    Dictionary.get? name (scope.declared kind (some name)).bindings = some kind :=
  (Dictionary.get?_put ..).trans (if_pos rfl)

theorem get?_declared_of_notMem (scope : Scope) (kind : NameKind) {given : Option String}
    {name : String} (away : name ∉ given.toList) :
    Dictionary.get? name (scope.declared kind given).bindings =
      Dictionary.get? name scope.bindings := by
  cases given with
  | none => rfl
  | some other =>
      exact (Dictionary.get?_put ..).trans (if_neg fun same => away (List.mem_singleton.mpr same))

theorem bound_isSome {b : Bindings} {given : String} {kind : NameKind}
    (bound : Dictionary.get? given b = some kind) (name : String) :
    (Dictionary.get? name b).isSome ↔
      (Dictionary.get? name b).isSome ∨ name ∈ (some given).toList := by
  constructor
  · exact .inl
  · rintro (known | same)
    · exact known
    · rw [List.mem_singleton.mp same, bound]
      rfl

theorem matchStart_binds (node : NodePattern) :
    BindsExactly node.name.toList (matchStart node) := by
  intro scope operations after done name
  obtain ⟨_, _, ⟨_, _, rfl⟩ | ⟨other, named, bound, _, rfl⟩⟩ := matchStart_cases done
  · rw [declared_isSome]
  · exact named ▸ bound_isSome bound name

theorem matchEnd_binds (node : NodePattern) : BindsExactly node.name.toList (matchEnd node) := by
  intro scope operations after done name
  obtain ⟨_, _, ⟨_, _, rfl⟩ | ⟨other, named, bound, _, rfl⟩⟩ := matchEnd_cases done
  · rw [declared_isSome]
  · exact named ▸ bound_isSome bound name

theorem matchRelationship_binds (r : RelationshipPattern) :
    BindsExactly r.name.toList (matchRelationship r) := by
  intro scope operations after done name
  obtain ⟨_, ⟨_, rfl, _⟩ | ⟨_, _, rfl, _⟩⟩ := matchRelationship_cases done <;> rw [declared_isSome]

theorem matchChain_binds (chain : List (RelationshipPattern × NodePattern)) :
    BindsExactly (chain.flatMap fun link => link.1.name.toList ++ link.2.name.toList)
      (matchChain chain) := by
  induction chain with
  | nil => exact .pure _
  | cons link rest ih =>
      rw [List.flatMap_cons, List.append_assoc]
      exact (matchRelationship_binds link.1).bind fun edge =>
        (matchEnd_binds link.2).bind fun vertex => ih.map (edge ++ vertex ++ ·)

theorem matchPath_binds (p : PathPattern) : BindsExactly p.variables (matchPath p) :=
  (matchStart_binds p.start).bind fun first => (matchChain_binds p.chain).map (first ++ ·)

theorem matchPaths_bind (paths : List PathPattern) :
    BindsExactly (paths.flatMap PathPattern.variables) (matchPaths paths) := by
  induction paths with
  | nil => exact .pure _
  | cons p rest ih => exact (matchPath_binds p).bind fun path => ih.map (path ++ ·)

theorem matchClause_binds (m : MatchClause) : BindsExactly m.variables (matchClause m) := by
  unfold matchClause MatchClause.variables
  rw [← List.append_nil (m.patterns.flatMap _)]
  refine (matchPaths_bind m.patterns).bind fun paths => ?_
  cases m.condition with
  | none => exact .pure _
  | some e =>
      refine .reading (f := fun scope =>
        (fun condition => paths ++ [.nested .where_ [condition]]) <$>
          conditionScript scope.bindings e) fun scope => ?_
      simp

theorem matchClauses_bind_variables (clauses : List MatchClause) :
    BindsExactly (clauses.flatMap MatchClause.variables) (matchClauses clauses) := by
  induction clauses with
  | nil => exact .pure _
  | cons m rest ih => exact (matchClause_binds m).bind fun clause => ih.map (clause ++ ·)

end Cypher

end PropertyGraph
