import PropertyGraph.Cypher.Compiler
import PropertyGraph.Proofs.Builder.Material
import PropertyGraph.Proofs.Cypher.ExpressionSoundness
import PropertyGraph.Proofs.Cypher.Paired

/-!
What scripts of expressions and patterns are made of: the literals of the query, and constants of
their own. They find and filter, so no step among them changes the graph.
-/

namespace PropertyGraph

/-- Every literal in an expression is such a value. -/
inductive Expression.Literals (P : Value → Prop) : Expression → Prop
  | literal {v : Value} (holds : P v) : Literals P (.literal v)
  | reference (name : String) : Literals P (.reference name)
  | property (owner key : String) : Literals P (.property owner key)
  | list {items : List Expression} (all : ∀ e ∈ items, Literals P e) : Literals P (.list items)
  | map {entries : List (String × Expression)} (all : ∀ entry ∈ entries, Literals P entry.2) :
      Literals P (.map entries)
  | binary {left right : Expression} (op : BinaryOperator) (first : Literals P left)
      (second : Literals P right) : Literals P (.binary left op right)
  | not {e : Expression} (inside : Literals P e) : Literals P (.not e)
  | negate {e : Expression} (inside : Literals P e) : Literals P (.negate e)
  | isNull {e : Expression} (inside : Literals P e) : Literals P (.isNull e)
  | isNotNull {e : Expression} (inside : Literals P e) : Literals P (.isNotNull e)
  | call (name : String) (distinct : Bool) {arguments : List Expression}
      (all : ∀ e ∈ arguments, Literals P e) : Literals P (.call name distinct arguments)
  | countAll : Literals P .countAll

/-- An expression and itself, with such literals. -/
def Expression.SameWith (P : Value → Prop) (e e' : Expression) : Prop := e = e' ∧ e.Literals P

/-- All literals of a query are such values. -/
abbrev Query.Literals (P : Value → Prop) (q : Query) : Prop := q.Paired (Expression.SameWith P) q

theorem Expression.Literals.of_literal? {P : Value → Prop} {e : Expression} {v : Value}
    (all : e.Literals P) (found : e.literal? = some v) : P v := by
  cases all with
  | literal holds =>
      cases found
      exact holds
  | _ => cases found

/-- What a computation returns, if anything, is such. -/
def Returns {ε α : Type} (S : α → Prop) (result : Except ε α) : Prop := ∀ a, result = .ok a → S a

namespace Returns

variable {ε α β : Type} {S : α → Prop} {T : β → Prop} {result : Except ε α} {a : α}

theorem ok (holds : S a) : Returns S (.ok a : Except ε α) := fun _ same => Except.ok.inj same ▸ holds

theorem pure (holds : S a) : Returns S (Pure.pure a : Except ε α) := ok holds

theorem error (fault : ε) : Returns S (.error fault) := nofun

theorem bind {next : α → Except ε β} (first : Returns S result)
    (later : ∀ a, S a → Returns T (next a)) : Returns T (result >>= next) := by
  intro b returned
  obtain ⟨a, one, two⟩ := bind_eq_ok.mp returned
  exact later a (first a one) b two

theorem map {f : α → β} (first : Returns S result) (keeps : ∀ a, S a → T (f a)) :
    Returns T (f <$> result) := by
  intro b returned
  obtain ⟨a, one, same⟩ := map_eq_ok.mp returned
  exact same ▸ keeps a (first a one)

theorem any (result : Except ε α) : Returns (fun _ => True) result := fun _ _ => trivial

theorem after_ {next : α → Except ε β} (later : ∀ a, Returns T (next a)) :
    Returns T (result >>= next) := (any result).bind fun a _ => later a

end Returns

namespace Cypher

open Script Scripting

/-- In every scope such things are written. -/
def Writes {α : Type} (S : α → Prop) (p : Scripting α) : Prop :=
  ∀ scope, Returns (fun found => S found.1) (p.run scope)

namespace Writes

variable {α β : Type} {S : α → Prop} {T : β → Prop} {p : Scripting α} {a : α}

theorem pure (holds : S a) : Writes S (Pure.pure a) := fun _ => .ok holds

theorem throw (fault : CompileFault) : Writes S (MonadExcept.throw fault) := fun _ => .error fault

theorem refused (fault : CompileFault) (next : α → Scripting β) :
    Writes T (MonadExcept.throw fault >>= next) := fun _ => .error fault

theorem bind {next : α → Scripting β} (first : Writes S p) (later : ∀ a, S a → Writes T (next a)) :
    Writes T (p >>= next) := by
  intro scope
  rw [StateT.run_bind]
  exact (first scope).bind fun found holds => later _ holds _

theorem any (p : Scripting α) : Writes (fun _ => True) p := fun _ _ _ => trivial

theorem after_ {next : α → Scripting β} (later : ∀ a, Writes T (next a)) :
    Writes T (p >>= next) := (any p).bind fun a _ => later a

theorem of_except {result : Except CompileFault α} (returns : Returns S result) :
    Writes S (liftM result : Scripting α) := by
  intro scope
  cases result with
  | ok a => exact .ok (returns a rfl)
  | error fault => exact .error fault

theorem append {m : Material} {first second : Scripting Ops} (one : Writes (OpsMade m) first)
    (two : Writes (OpsMade m) second) :
    Writes (OpsMade m) (do return (← first) ++ (← second)) :=
  one.bind fun _ front => two.bind fun _ back => pure (front.append back)

end Writes

variable {m : Material} {b : Bindings}

theorem unknown_made : m.Takes Value.unknown := Material.takes_string _

theorem literalValue_made {v : Value} (made : m.Takes v) : m.Takes (literalValue v) := by
  unfold literalValue
  split
  · exact unknown_made
  · exact made

theorem ownProperty_made (key : String) : OpMade m (ownProperty key) :=
  .nested_two rfl (.one (.labelled rfl)) (.one (.constant unknown_made))

theorem isKnown_made : OpMade m isKnown := .is_ unknown_made

theorem isUnknown_made : OpMade m isUnknown := .is_ unknown_made

theorem isTrue_made : OpMade m isTrue := .is_ (Material.takes_bool true)

theorem isFalse_made : OpMade m isFalse := .is_ (Material.takes_bool false)

theorem pairwise_made {f : Function} {left right : Ops} (first : OpsMade m left)
    (second : OpsMade m right) : OpsMade m (pairwise f left right) :=
  .cons (.nested_two rfl first second) (.cons (.bare rfl) (.one (.apply f)))

theorem choice_made {condition yes no : Ops} (asks : OpsMade m condition) (first : OpsMade m yes)
    (second : OpsMade m no) : OpMade m (choice condition yes no) :=
  ⟨.inl rfl, asks, first, second, trivial⟩

theorem truthOf_made {condition : Ops} (made : OpsMade m condition) :
    OpMade m (truthOf condition) :=
  choice_made made (.one (.constant (Material.takes_bool true)))
    (.one (.constant (Material.takes_bool false)))

theorem scalar_made (name : String) : Returns (OpsMade m) (scalar name) := by
  unfold scalar
  split
  · exact .ok (.one (.bare rfl))
  · exact .ok (.one (.bare rfl))
  · exact .ok (.cons (.bare rfl) (.one (.bare rfl)))
  · exact .ok (.cons (.labelled rfl) (.cons (.bare rfl) (.one (.bare rfl))))
  · exact .ok (.one (.apply _))
  · exact .ok (.one (.apply _))
  · exact .ok (.one (.apply _))
  · exact .ok (.one (.apply _))
  · exact .ok (.one (.apply _))
  · exact .error _

theorem membership_made (op : BinaryOperator) {right : Expression}
    (made : right.Literals m.Takes) : Returns m.Tests (membership op right) := by
  have text (s : String) : ∀ c ∈ [Content.text s], m.holds c :=
    List.forall_mem_singleton.mpr (m.text s)
  unfold membership
  split
  · exact (Returns.any _).map fun s _ => text s
  · exact (Returns.any _).map fun s _ => text s
  · exact (Returns.any _).map fun s _ => text s
  · split
    · next items found =>
        exact .ok (Material.tests_within.mpr (Material.takes_list.mp (made.of_literal? found)))
    · exact .error _

theorem script_made {operations : Except CompileFault Ops}
    (made : Returns (OpsMade m) operations) : Returns (Script.Made m) (Script.of <$> operations) :=
  made.map fun _ made => made

mutual

theorem valueOps_made {b : Bindings} : (e : Expression) → e.Literals m.Takes →
    Returns (OpsMade m) (valueOps b e)
  | .literal v, .literal made => .ok (.one (.constant (literalValue_made made)))
  | .reference name, _ => by
      rw [valueOps]
      refine .after_ fun kind => ?_
      cases kind with
      | relationships => exact .pure (.one (.selectLabel _ _))
      | _ => exact .pure (.one (.select _))
  | .property owner key, _ => by
      rw [valueOps]
      refine .after_ fun kind => ?_
      dsimp only
      split
      · exact .error _
      · exact .pure (.cons (.select _) (.one (ownProperty_made key)))
  | .list items, .list all => (valueScripts_made items all).bind fun _ made =>
      .pure (.cons (.nested rfl made) (.one (.bare rfl)))
  | .map entries, .map all => (entryScripts_made entries all).bind fun _ made =>
      .pure (.cons (.project _) (opsMade_iff.mpr (List.forall_mem_map.mpr fun script member =>
        .nested rfl (List.forall_mem_singleton.mpr (made script member)))))
  | .binary left op right, .binary _ first second => by
      rw [valueOps]
      split
      · exact (valueOps_made left first).bind fun _ front =>
          (valueOps_made right second).bind fun _ back => .pure (pairwise_made front back)
      · exact (valueOps_made left first).bind fun _ operand =>
          (membership_made op second).bind fun p tests => .pure (.one (choice_made
            (operand.append (.one isUnknown_made)) (.one (.constant unknown_made))
            (.one (truthOf_made (operand.append (.cons isKnown_made (.one (.is_ tests))))))))
  | .not operand, .not inside => (valueOps_made operand inside).bind fun _ made =>
      .pure (made.append (.one (.apply _)))
  | .negate operand, .negate inside => (valueOps_made operand inside).bind fun _ made =>
      .pure (pairwise_made (.one (.constant (Material.takes_int 0))) made)
  | .isNull operand, .isNull inside => (valueOps_made operand inside).bind fun _ made =>
      .pure (.one (truthOf_made (made.append (.one isUnknown_made))))
  | .isNotNull operand, .isNotNull inside => (valueOps_made operand inside).bind fun _ made =>
      .pure (.one (truthOf_made (made.append (.one isKnown_made))))
  | .call name _ arguments, .call _ _ all => by
      unfold valueOps
      split
      · exact .error _
      · match arguments, all with
        | [argument], all =>
            exact (valueOps_made argument (all _ List.mem_cons_self)).bind fun _ front =>
              (scalar_made name).bind fun _ back => .pure (front.append back)
        | [], _ => exact .error _
        | _ :: _ :: _, _ => exact .error _
  | .countAll, _ => .error _
termination_by structural e => e

theorem valueScripts_made {b : Bindings} : (items : List Expression) →
    (∀ e ∈ items, e.Literals m.Takes) →
    Returns (fun scripts => ∀ script ∈ scripts, script.Made m) (valueScripts b items)
  | [], _ => .ok (List.forall_mem_nil _)
  | e :: rest, all =>
      (script_made (valueOps_made e (all _ List.mem_cons_self))).bind fun _ one =>
      (valueScripts_made rest fun e member => all e (List.mem_cons_of_mem _ member)).bind
        fun _ others => .pure (List.forall_mem_cons.mpr ⟨one, others⟩)
termination_by structural items => items

theorem entryScripts_made {b : Bindings} : (entries : List (String × Expression)) →
    (∀ entry ∈ entries, entry.2.Literals m.Takes) →
    Returns (fun scripts => ∀ script ∈ scripts, script.Made m) (entryScripts b entries)
  | [], _ => .ok (List.forall_mem_nil _)
  | entry :: rest, all =>
      (entryScript_made entry (all _ List.mem_cons_self)).bind fun _ one =>
      (entryScripts_made rest fun entry member => all entry (List.mem_cons_of_mem _ member)).bind
        fun _ others => .pure (List.forall_mem_cons.mpr ⟨one, others⟩)
termination_by structural entries => entries

theorem entryScript_made {b : Bindings} : (entry : String × Expression) →
    entry.2.Literals m.Takes → Returns (Script.Made m) (entryScript b entry)
  | (_, e), made => script_made (valueOps_made e made)
termination_by structural entry => entry

end

theorem valueScript_made {e : Expression} (made : e.Literals m.Takes) :
    Returns (Script.Made m) (valueScript b e) := script_made (valueOps_made e made)

theorem comparisonPredicate_made (op : BinaryOperator) {v : Value} (made : m.Takes v) :
    m.Tests (comparisonPredicate op v) := by
  cases op <;> exact made

theorem constant?_made {e : Expression} {v : Value} (made : e.Literals m.Takes)
    (found : constant? e = some v) : m.Takes v := by
  unfold constant? at found
  split at found
  · next w known =>
      split at found
      · cases found
      · cases found
        exact made.of_literal? known
  · cases found

theorem tested_made {e : Expression} (made : e.Literals m.Takes) {last : Ops}
    (tests : OpsMade m last) :
    Returns (OpsMade m) (do return (← valueOps b e) ++ last) :=
  (valueOps_made e made).bind fun _ front => .pure (front.append tests)

theorem comparisonOps_made (op : BinaryOperator) (f : Function) {left right : Expression}
    (first : left.Literals m.Takes) (second : right.Literals m.Takes) :
    Returns (OpsMade m) (comparisonOps b op f left right) := by
  have compared (op : BinaryOperator) {v : Value} (made : m.Takes v) :
      OpsMade m [isKnown, .is_ (comparisonPredicate op v)] :=
    .cons isKnown_made (.one (.is_ (comparisonPredicate_made op made)))
  unfold comparisonOps
  split
  · next _ found => exact tested_made first (compared op (constant?_made second found))
  · next found _ _ =>
      exact tested_made second (compared (flipped op) (constant?_made first found))
  · exact (valueOps_made left first).bind fun _ front =>
      (valueOps_made right second).bind fun _ back =>
        .pure ((pairwise_made front back).append (.one isTrue_made))

theorem conditionOps_made (e : Expression) (made : e.Literals m.Takes) :
    Returns (OpsMade m) (conditionOps b e) := by
  fun_induction conditionOps b e with
  | case1 left right ihLeft ihRight | case2 left right ihLeft ihRight =>
      cases made with
      | binary _ first second =>
          exact (ihLeft first).bind fun _ front => (ihRight second).bind fun _ back =>
            .pure (.one (.nested_two rfl front back))
  | case3 left op right _ _ f found =>
      cases made with
      | binary _ first second => exact comparisonOps_made op f first second
  | case4 left op right =>
      cases made with
      | binary _ first second =>
          exact (membership_made op second).bind fun p tests =>
            tested_made first (.cons isKnown_made (.one (.is_ tests)))
  | case5 left op right => exact tested_made made (.one isTrue_made)
  | case6 operand =>
      cases made with
      | not inside => exact tested_made inside (.one isFalse_made)
  | case7 operand =>
      cases made with
      | isNull inside => exact tested_made inside (.one isUnknown_made)
  | case8 operand =>
      cases made with
      | isNotNull inside => exact tested_made inside (.one isKnown_made)
  | case9 => exact .ok (.one (.bare rfl))
  | case10 | case11 => exact .ok (.one (.limit 0))
  | case12 => exact tested_made made (.one isTrue_made)

theorem value_made {e : Expression} (made : e.Literals m.Takes) :
    Writes (Script.Made m) (value e) := .after_ fun _ => .of_except (valueScript_made made)

theorem propertyFilter_made (key : String) {e : Expression} (made : e.Literals m.Takes) :
    Writes (OpMade m) (propertyFilter key e) := by
  unfold propertyFilter
  split
  · next v found => exact .pure (.has key (made.of_literal? found))
  · exact (value_made made).bind fun script other =>
      .pure (.nested_one rfl (.cons ⟨.inl rfl, .one (ownProperty_made key), other, trivial⟩
        (.cons (.bare rfl) (.cons (.apply _) (.one isTrue_made)))))

/-- The literals of the expressions under the keys of a map are of the material. -/
abbrev AreMade (m : Material) (properties : List (String × Expression)) : Prop :=
  ∀ entry ∈ properties, entry.2.Literals m.Takes

theorem propertyFilters_made {properties : List (String × Expression)}
    (made : AreMade m properties) : Writes (OpsMade m) (propertyFilters properties) := by
  unfold propertyFilters
  induction properties with
  | nil => exact .pure .nil
  | cons entry rest ih =>
      rw [AreMade, List.forall_mem_cons] at made
      rw [List.mapM_cons]
      exact (propertyFilter_made entry.1 made.1).bind fun _ first =>
        (ih made.2).bind fun _ others => .pure (.cons first others)

theorem nodeConstraints_made {node : NodePattern} (made : AreMade m node.properties) :
    Writes (OpsMade m) (nodeConstraints node) :=
  (propertyFilters_made made).bind fun _ filters =>
    .pure (.append (.map _ fun _ => .hasLabel _) filters)

theorem labelOps_made (name : Option String) : OpsMade m (labelOps name) :=
  .map _ fun _ => .labelled rfl

theorem bind?_made (name : Option String) (kind : NameKind) :
    Writes (OpsMade m) (bind? name kind) := .after_ fun _ => .pure (labelOps_made name)

theorem edgeStep_made (d : Direction) (types : List String) : OpMade m (edgeStep d types) := by
  cases d <;> exact .labelled rfl

theorem vertexStep_made (d : Direction) : OpMade m (vertexStep d) := by
  cases d <;> exact .bare rfl

theorem pathLoop_made {body : Ops} (made : OpsMade m body) (range : PathLength) :
    OpsMade m (pathLoop body range) := by
  have loop : OpMade m (.nested .repeat_ [.of body]) := .nested_one rfl made
  have gate : OpMade m (.nested .emit [.of [.append .loops [], .is_ (.gte (.ofNat range.min))]]) :=
    .nested_one rfl (.cons (.bare rfl) (.one (.is_ (Material.takes_int _))))
  have exits : OpsMade m (range.max.map .times).toList := by
    cases range.max with
    | none => exact .nil
    | some most => exact .one (.times most)
  unfold pathLoop
  refine .append ?_ exits
  split
  · exact .cons (.bare rfl) (.one loop)
  · exact .cons loop (.one gate)

theorem matchRelationship_made {r : RelationshipPattern} (made : AreMade m r.properties) :
    Writes (OpsMade m) (matchRelationship r) := by
  have filters := propertyFilters_made made
  have step : OpMade m (edgeStep r.direction r.types) := edgeStep_made _ _
  have last : OpMade m (vertexStep r.direction) := vertexStep_made _
  have simple : OpMade m (.append .simplePath []) := .bare rfl
  unfold matchRelationship
  refine .after_ fun bound => ?_
  cases r.length with
  | none =>
      dsimp only
      split
      · exact .refused _ _
      · exact filters.bind fun _ tests => (bind?_made _ _).bind fun _ label =>
          .pure (((OpsMade.cons step tests).append label).append (.one last))
  | some range =>
      dsimp only
      split
      · exact .refused _ _
      refine .after_ fun _ => ?_
      split
      · exact .pure .nil
      · exact filters.bind fun _ tests => .pure (pathLoop_made
          (((OpsMade.cons step tests).append (labelOps_made _)).append
            (.cons last (.one simple))) _)

theorem matchStart_made {node : NodePattern} (made : AreMade m node.properties) :
    Writes (OpsMade m) (matchStart node) := by
  have constraints := nodeConstraints_made made
  have fresh : Writes (OpsMade m) (matchStart.fresh node) :=
    .after_ fun _ => constraints.bind fun _ tests => (bind?_made _ _).bind fun _ label =>
      .pure (.cons trivial (tests.append label))
  unfold matchStart
  split
  · refine .after_ fun bound => ?_
    split
    · exact .after_ fun _ => constraints.bind fun _ tests => .pure (.cons (.select _) tests)
    · exact fresh
  · exact fresh

theorem matchEnd_made {node : NodePattern} (made : AreMade m node.properties) :
    Writes (OpsMade m) (matchEnd node) := by
  have constraints := nodeConstraints_made made
  have fresh : Writes (OpsMade m) (matchEnd.fresh node) :=
    constraints.bind fun _ tests => (bind?_made _ _).bind fun _ label =>
      .pure (tests.append label)
  unfold matchEnd
  split
  · refine .after_ fun bound => ?_
    split
    · exact .after_ fun _ => constraints.bind fun _ tests =>
        .pure (tests.append (.one ⟨.inl rfl, Material.names_label _, trivial⟩))
    · exact fresh
  · exact fresh

theorem areMade_of_paired {properties : List (String × Expression)}
    (paired : EntriesPaired (Expression.SameWith m.Takes) properties properties) :
    AreMade m properties :=
  fun entry member => (List.forall₂_same.mp paired entry member).2.2

/-- The literals of these paths are of the material. -/
abbrev PathsMade (m : Material) (paths : List PathPattern) : Prop :=
  ∀ p ∈ paths, p.Paired (Expression.SameWith m.Takes) p

theorem matchChain_made {chain : List (RelationshipPattern × NodePattern)}
    (made : ∀ link ∈ chain, AreMade m link.1.properties ∧ AreMade m link.2.properties) :
    Writes (OpsMade m) (matchChain chain) := by
  induction chain with
  | nil => exact .pure .nil
  | cons link rest ih =>
      obtain ⟨⟨edge, vertex⟩, others⟩ := List.forall_mem_cons.mp made
      exact (matchRelationship_made edge).bind fun _ first =>
        (matchEnd_made vertex).bind fun _ second => (ih others).bind fun _ third =>
        .pure ((first.append second).append third)

theorem links_made {p : PathPattern} (paired : p.Paired (Expression.SameWith m.Takes) p) :
    ∀ link ∈ p.chain, AreMade m link.1.properties ∧ AreMade m link.2.properties := by
  intro link member
  obtain ⟨edge, vertex⟩ := List.forall₂_same.mp paired.chain link member
  exact ⟨areMade_of_paired edge.properties, areMade_of_paired vertex.properties⟩

theorem matchPaths_made {paths : List PathPattern} (made : PathsMade m paths) :
    Writes (OpsMade m) (matchPaths paths) := by
  induction paths with
  | nil => exact .pure .nil
  | cons p rest ih =>
      obtain ⟨first, others⟩ := List.forall_mem_cons.mp made
      have path : Writes (OpsMade m) (matchPath p) :=
        (matchStart_made (areMade_of_paired first.start.properties)).append
          (matchChain_made (links_made first))
      exact path.append (ih others)

theorem matchClause_made {clause : MatchClause}
    (made : clause.Paired (Expression.SameWith m.Takes) clause) :
    Writes (OpsMade m) (matchClause clause) := by
  have paths := matchPaths_made (List.forall₂_same.mp made.patterns)
  have condition := made.condition
  unfold matchClause
  generalize clause.condition = asked at condition ⊢
  cases condition with
  | none => exact paths.bind fun _ found => .pure found
  | some same =>
      exact paths.bind fun _ found => .after_ fun scope =>
        (Writes.of_except (script_made (conditionOps_made _ same.2))).bind fun _ asks =>
        .pure (found.append (.one (.nested rfl (List.forall_mem_singleton.mpr asks))))

theorem matchClauses_made {clauses : List MatchClause}
    (made : ∀ clause ∈ clauses, clause.Paired (Expression.SameWith m.Takes) clause) :
    Writes (OpsMade m) (matchClauses clauses) := by
  induction clauses with
  | nil => exact .pure .nil
  | cons clause rest ih =>
      obtain ⟨first, others⟩ := List.forall_mem_cons.mp made
      exact (matchClause_made first).append (ih others)

end Cypher

end PropertyGraph
