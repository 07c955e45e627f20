import PropertyGraph.Cypher.ExpressionScript
import PropertyGraph.Proofs.Cypher.Compilation
import PropertyGraph.Proofs.Function.Results
import PropertyGraph.Proofs.Value.Equality

/-!
Conditions let a traverser pass where the value of the same expression is true. Null is written as
the unknown text everywhere, so that a condition that only knows this text meets no other null. Of
two booleans, integers or known texts, the function of an operator says what its predicate says,
whichever side the predicate is given.
-/

namespace PropertyGraph

namespace Value

/-- Booleans, integers and known texts. -/
inductive IsBasic : Value → Prop
  | bool (b : Bool) : IsBasic (.bool b)
  | int (i : Int64) : IsBasic (.int i)
  | string {s : String} (known : s ≠ nullText) : IsBasic (.string s)

variable {v w : Value}

theorem IsBasic.isUnknown_eq (basic : v.IsBasic) : v.isUnknown = false := by
  cases basic with
  | bool b => rfl
  | int i => rfl
  | string known => simpa [isUnknown] using known

theorem IsBasic.not_blurs (first : v.IsBasic) (second : w.IsBasic) : ¬ v.Blurs w := by
  intro blurs
  cases first with
  | int i =>
      cases second with
      | int j => exact integers_not_blurred i j blurs
      | _ => exact not_blurs_of_other rfl rfl blurs
  | bool b =>
      cases blurs with
      | zeros number => cases number
      | ties ties _ different =>
          cases ties with
          | same => exact different rfl
          | unknown unknown => cases unknown
  | string known =>
      cases blurs with
      | zeros number => cases number
      | ties ties _ different =>
          cases ties with
          | same => exact different rfl
          | unknown unknown =>
              rw [(IsBasic.string known).isUnknown_eq] at unknown
              cases unknown

/-- What predicates take for equal is what the order takes for equal. -/
theorem looselyEqual_eq (first : v.IsBasic) (second : w.IsBasic) :
    Predicate.looselyEqual v w = (v.order w == .eq) :=
  ((equal_agree_iff first.isUnknown_eq second.isUnknown_eq).mpr (first.not_blurs second)).symm

theorem comparison?_eq (first : v.IsBasic) (second : w.IsBasic) :
    Predicate.comparison? v w =
      if Function.areComparable v w then some (v.order w) else none := by
  cases first with
  | bool a => cases second <;> rfl
  | int i => cases second <;> rfl
  | string known =>
      cases second with
      | string known' =>
          have ordered := order_string_known (IsBasic.string known).isUnknown_eq
            (IsBasic.string known').isUnknown_eq
          simp [Predicate.comparison?, known, known', ordered, Function.areComparable]
      | _ => rfl

theorem areComparable_comm (first : v.IsBasic) (second : w.IsBasic) :
    Function.areComparable w v = Function.areComparable v w := by
  cases first <;> cases second <;> rfl

end Value

namespace Cypher

variable {op : BinaryOperator} {f : Function} {v w : Value}

theorem apply_comparison (comparing : comparison? op = some f) (first : v.IsBasic)
    (second : w.IsBasic) : f.apply (.list [v, w]) = f.applyBinary v w := by
  cases op <;> cases comparing <;>
    simp [Function.apply, Function.isUnary, first.isUnknown_eq, second.isUnknown_eq]

theorem apply_unknown (comparing : comparison? op = some f)
    (unknown : (v.isUnknown || w.isUnknown) = true) :
    f.apply (.list [v, w]) = .ok Value.unknown := by
  cases op <;> cases comparing <;> simp only [Function.apply, Function.isUnary, unknown] <;> rfl

theorem comparison_agrees (comparing : comparison? op = some f) (first : v.IsBasic)
    (second : w.IsBasic) : ∃ result, f.apply (.list [v, w]) = .ok result ∧
      decide (result = .bool true) = (comparisonPredicate op w).test v := by
  rw [apply_comparison comparing first second]
  have equal := Value.looselyEqual_eq first second
  have compared := Value.comparison?_eq first second
  cases op <;> cases comparing <;> refine ⟨_, rfl, ?_⟩ <;>
    simp only [comparisonPredicate, Predicate.test, equal, compared, Function.ordering] <;>
    cases Function.areComparable v w <;> cases v.order w <;> rfl

theorem flipped_predicate (comparing : comparison? op = some f) (first : v.IsBasic)
    (second : w.IsBasic) :
    (comparisonPredicate (flipped op) v).test w = (comparisonPredicate op w).test v := by
  have equal := Value.looselyEqual_eq first second
  have compared := Value.comparison?_eq first second
  have equal' := Value.looselyEqual_eq second first
  have compared' := Value.comparison?_eq second first
  rw [Value.order_swap v w] at equal' compared'
  rw [Value.areComparable_comm first second] at compared'
  cases op <;> cases comparing <;>
    simp only [comparisonPredicate, flipped, Predicate.test, equal, compared, equal', compared'] <;>
    cases Function.areComparable v w <;> cases v.order w <;> rfl

end Cypher

end PropertyGraph

/-! ## Conditions -/

namespace PropertyGraph

theorem Dictionary.get?_mem {key : String} {v : Value} {known : Properties}
    (found : Dictionary.get? key known = some v) : v ∈ Dictionary.values known := by
  induction known with
  | nil => cases found
  | cons entry rest ih =>
      rw [Dictionary.get?] at found
      split at found
      · cases found
        exact List.mem_cons_self
      · exact List.mem_cons_of_mem _ (ih found)

/-- No property of an element is null. -/
structure Graph.StoresNoNull (g : Graph) : Prop where
  vertices : ∀ v ∈ g.vertices, Value.null ∉ Dictionary.values v.properties
  edges : ∀ e ∈ g.edges, Value.null ∉ Dictionary.values e.properties

theorem Graph.StoresNoNull.property {g : Graph} (stores : g.StoresNoNull) {owner v : Value}
    {known : Properties} (found : g.propertiesOf owner = .ok known) {key : String}
    (stored : Dictionary.get? key known = some v) : v ≠ .null := by
  rintro rfl
  have member := Dictionary.get?_mem stored
  cases owner with
  | vertex ref =>
      simp only [propertiesOf] at found
      split at found
      · rename_i vertex present
        cases found
        exact stores.vertices vertex (List.mem_of_find?_eq_some present) member
      · cases found
  | edge ref =>
      simp only [propertiesOf] at found
      split at found
      · rename_i edge present
        cases found
        exact stores.edges edge (List.mem_of_find?_eq_some present) member
      · cases found
  | _ => cases found

/-- Neither a variable nor a property is null. -/
structure Environment.HasNoNull (env : Environment) : Prop where
  bindings : ∀ name, env.value? name ≠ some .null
  properties : env.graph.StoresNoNull

/-- The variables of a scope are found, and none is null. -/
def World.IsRow (world : World) (t : Traverser) (b : Cypher.Bindings) : Prop :=
  ∀ name, (Dictionary.get? name b).isSome →
    ∃ v, (Environment.seenFrom b world t).value? name = some v ∧ v ≠ .null

namespace World.IsRow

variable {world : World} {t : Traverser} {b : Cypher.Bindings}

theorem covers (row : world.IsRow t b) : (Environment.seenFrom b world t).Covers b := by
  intro name declared
  obtain ⟨v, found, _⟩ := row name declared
  simp [found]

theorem hasNoNull (row : world.IsRow t b) (stores : world.store.graph.StoresNoNull) :
    (Environment.seenFrom b world t).HasNoNull := by
  refine ⟨?_, stores⟩
  intro name null
  cases declared : Dictionary.get? name b with
  | none => simp [Environment.seenFrom, declared] at null
  | some kind =>
      obtain ⟨v, found, given⟩ := row name (by simp [declared])
      exact given (Option.some.inj (found.symm.trans null))

/-- The labels along a path make a row, where nothing stands before them. -/
theorem of_labels (binds : t.Binds b) (exposes : world.Exposes t b)
    (given : ∀ name, (Dictionary.get? name b).isSome → Value.null ∉ t.labelled name) :
    world.IsRow t b := by
  intro name declared
  rw [Environment.seenFrom_eq exposes]
  obtain ⟨v, found⟩ :=
    Option.isSome_iff_exists.mp (Environment.onPath_covers world.store.graph binds name declared)
  refine ⟨v, found, ?_⟩
  rintro rfl
  obtain ⟨kind, known⟩ := Option.isSome_iff_exists.mp declared
  cases kind with
  | relationships => simp [Environment.onPath, known] at found
  | _ =>
      simp only [Environment.onPath, known] at found
      exact given name declared (List.mem_of_getLast? found)

end World.IsRow

namespace Value

/-- What comparisons are written for. -/
def isPlain : Value → Bool
  | .null | .bool _ | .int _ | .string _ => true
  | _ => false

theorem isBasic_of_isPlain {v : Value} (plain : v.isPlain) (known : v.isUnknown = false) :
    v.IsBasic := by
  cases v with
  | bool b => exact .bool b
  | int i => exact .int i
  | string s => exact .string (by simpa [isUnknown] using known)
  | null => cases known
  | _ => cases plain

theorem isUnknown_false {v : Value} (given : v ≠ .null) (apart : v ≠ unknown) :
    v.isUnknown = false := by
  cases v <;> simp_all [isUnknown, unknown]

end Value

namespace Function

theorem value_eq_ok {f : Function} {v result : Value} :
    f.value v = .ok result ↔ f.apply v = .ok result := by
  unfold value
  cases f.apply v <;> simp [Except.mapError]

theorem value_ne_null (f : Function) (v : Value) : f.value v ≠ .ok .null := by
  rw [Ne, value_eq_ok]
  exact apply_ne_null f v

end Function

namespace Expression

/-- The expression does not spell the text that stands for null, and its values can be compared. -/
structure IsPlain (env : Environment) (e : Expression) : Prop where
  spelled : e ≠ .literal Value.unknown
  values : ∀ v, e.evaluate env = .ok v → v.isPlain

/-- The comparisons that a condition is made of are between plain expressions. -/
def ComparesPlainly (env : Environment) : Expression → Prop
  | .binary left .and right => left.ComparesPlainly env ∧ right.ComparesPlainly env
  | .binary left .or right => left.ComparesPlainly env ∧ right.ComparesPlainly env
  | .binary left op right =>
      (Cypher.comparison? op).isSome → left.IsPlain env ∧ right.IsPlain env
  | _ => True

theorem scalar_ne_null (g : Graph) (name : String) (v : Value) :
    scalarValue g name v ≠ .ok .null := by
  unfold scalarValue
  split
  case h_1 => cases v <;> simp [Value.elementId, Value.ofNat]
  case h_2 => cases v <;> simp [Value.elementLabel]
  case h_3 | h_4 =>
      intro same
      obtain ⟨_, _, same⟩ := bind_eq_ok.mp same
      cases same
  case h_10 => simp [Value.unknown]
  all_goals exact Function.value_ne_null _ v

theorem evaluate_ne_null {env : Environment} (without : env.HasNoNull) (e : Expression) :
    e.evaluate env ≠ .ok .null := by
  have known (name : String) : (env.value? name).getD Value.unknown ≠ .null := by
    have some_ := without.bindings name
    cases found : env.value? name with
    | none => simp [Value.unknown]
    | some v => simpa [found] using some_
  cases e with
  | literal v => cases v <;> simp [evaluate, Value.unknown]
  | reference name =>
      intro same
      exact known name (Except.ok.inj same)
  | property owner key =>
      intro same
      obtain ⟨properties, found, same⟩ := bind_eq_ok.mp same
      have value := Except.ok.inj same
      cases stored : Dictionary.get? key properties with
      | none => simp [stored, Value.unknown] at value
      | some v =>
          rw [stored] at value
          exact without.properties.property found stored value
  | list items =>
      intro same
      obtain ⟨_, _, same⟩ := bind_eq_ok.mp same
      cases same
  | map entries =>
      intro same
      obtain ⟨_, _, same⟩ := bind_eq_ok.mp same
      cases same
  | binary left op right =>
      intro same
      obtain ⟨v, _, same⟩ := bind_eq_ok.mp same
      split at same
      · obtain ⟨w, _, same⟩ := bind_eq_ok.mp same
        exact Function.value_ne_null _ _ same
      · split at same
        · have value := Except.ok.inj same
          unfold tested at value
          split at value <;> simp [Value.unknown] at value
        · cases same
  | not operand =>
      intro same
      obtain ⟨_, _, same⟩ := bind_eq_ok.mp same
      exact Function.value_ne_null _ _ same
  | negate operand =>
      intro same
      obtain ⟨_, _, same⟩ := bind_eq_ok.mp same
      exact Function.value_ne_null _ _ same
  | isNull operand =>
      intro same
      obtain ⟨_, _, same⟩ := bind_eq_ok.mp same
      cases same
  | isNotNull operand =>
      intro same
      obtain ⟨_, _, same⟩ := bind_eq_ok.mp same
      cases same
  | call name distinct arguments =>
      intro same
      obtain ⟨values, _, same⟩ := bind_eq_ok.mp same
      split at same
      · exact scalar_ne_null _ _ _ same
      · cases same
  | countAll => simp [evaluate, Value.unknown]

end Expression

namespace Cypher

open Exec Script

section Comparisons

variable {op : BinaryOperator} {f : Function} {v w result : Value}

/-- The predicate of a comparison with a constant, asked of known values only. -/
theorem constant_right (comparing : comparison? op = some f)
    (applied : f.apply (.list [v, w]) = .ok result) (plain : v.isPlain) (given : v ≠ .null)
    (basic : w.IsBasic) :
    (decide (v ≠ Value.unknown) && (comparisonPredicate op w).test v) =
      decide (result = .bool true) := by
  by_cases unknown : v = Value.unknown
  · have nothing : result = Value.unknown := Except.ok.inj (applied.symm.trans
      (apply_unknown comparing (by simp [unknown, Value.unknown, Value.isUnknown])))
    simp [unknown, nothing, Value.unknown]
  · have known : v.IsBasic :=
      Value.isBasic_of_isPlain plain (Value.isUnknown_false given unknown)
    obtain ⟨result', applied', agrees⟩ := comparison_agrees comparing known basic
    cases Except.ok.inj (applied.symm.trans applied')
    simp [unknown, agrees]

theorem constant_left (comparing : comparison? op = some f)
    (applied : f.apply (.list [w, v]) = .ok result) (plain : v.isPlain) (given : v ≠ .null)
    (basic : w.IsBasic) :
    (decide (v ≠ Value.unknown) && (comparisonPredicate (flipped op) w).test v) =
      decide (result = .bool true) := by
  by_cases unknown : v = Value.unknown
  · have nothing : result = Value.unknown := Except.ok.inj (applied.symm.trans
      (apply_unknown comparing (by simp [unknown, Value.unknown, Value.isUnknown])))
    simp [unknown, nothing, Value.unknown]
  · have known : v.IsBasic :=
      Value.isBasic_of_isPlain plain (Value.isUnknown_false given unknown)
    obtain ⟨result', applied', agrees⟩ := comparison_agrees comparing basic known
    cases Except.ok.inj (applied.symm.trans applied')
    rw [flipped_predicate comparing basic known]
    simp [unknown, agrees]

end Comparisons

/-- A condition says true of an expression whose value is true, and false of any other value. -/
def Accepts (e : Expression) (c : Environment → Except ExecutionFault Bool) : Prop :=
  ∀ env, env.HasNoNull → e.ComparesPlainly env → ∀ w, e.evaluate env = .ok w →
    c env = .ok (decide (w = .bool true))

theorem test_eq_bool (v : Value) (truth : Bool) :
    Predicate.test (.eq (.bool truth)) v = decide (v = .bool truth) := by
  rw [Bool.eq_iff_iff, decide_eq_true_iff]
  simp [Predicate.test, Predicate.looselyEqual, Value.isNumber]

variable {b : Bindings} {operations : Ops} {e : Expression}

theorem Leads.isBool {f : Environment → Except ExecutionFault Value}
    (computes : Computes b operations f) (truth : Bool) :
    Decides b (operations ++ [.is_ (.eq (.bool truth))]) fun env =>
      f env >>= fun v => .ok (decide (v = .bool truth)) := by
  refine (computes.andThen (Moves.tests [.eq (.bool truth)])).congr fun env => ?_
  simp only [List.all_cons, List.all_nil, Bool.and_true, test_eq_bool]

/-- There is a condition for the expression, and it says what the value says. -/
def HasCondition (b : Bindings) (e : Expression) : Prop :=
  ∃ condition c, conditionOps b e = .ok condition ∧ Decides b condition c ∧ Accepts e c

/-- A test of an operand, where the expression computes its value from the operand alone. -/
theorem HasCondition.byTest {operand : Expression} {condition : Ops} {test : Value → Bool}
    (compute : Value → Except ExecutionFault Value)
    (compiled : conditionOps b e = .ok condition)
    (decides : Decides b condition fun env => operand.evaluate env >>= fun v => .ok (test v))
    (evaluates : ∀ env, e.evaluate env = operand.evaluate env >>= compute)
    (agrees : ∀ v w, compute v = .ok w → test v = decide (w = .bool true)) :
    HasCondition b e := by
  refine ⟨_, _, compiled, decides, ?_⟩
  intro env _ _ w evaluated
  rw [evaluates] at evaluated
  obtain ⟨v, evaluatedOperand, computed⟩ := bind_eq_ok.mp evaluated
  simp only [evaluatedOperand]
  exact congrArg Except.ok (agrees v w computed)

theorem HasCondition.byValue (compiled : valueOps b e = .ok operations)
    (computes : Computes b operations fun env => e.evaluate env)
    (asked : conditionOps b e = valueOps b e >>= fun value => .ok (value ++ [isTrue])) :
    HasCondition b e := by
  have compiledCondition : conditionOps b e = .ok (operations ++ [isTrue]) := by
    rw [asked, compiled]
    rfl
  refine .byTest _ compiledCondition (computes.isBool true) (fun env => (bind_pure _).symm) ?_
  intro v w computed
  cases computed
  rfl

theorem constant?_eq_some {v : Value} (found : constant? e = some v) :
    e = .literal v ∧ v ≠ .null := by
  cases e with
  | literal w =>
      cases w with
      | null => cases found
      | _ =>
          cases found
          exact ⟨rfl, by simp⟩
  | _ => cases found

section Operator

variable {op : BinaryOperator} {f : Function} {left right : Expression} {first second : Ops}

theorem evaluate_comparison (comparing : comparison? op = some f) {env : Environment} {w : Value}
    (evaluated : (Expression.binary left op right).evaluate env = .ok w) :
    ∃ v u, left.evaluate env = .ok v ∧ right.evaluate env = .ok u ∧
      f.apply (.list [v, u]) = .ok w := by
  obtain ⟨v, evaluatedLeft, evaluated⟩ := bind_eq_ok.mp evaluated
  have function : op.operation? = some f := by cases op <;> cases comparing <;> rfl
  simp only [function] at evaluated
  obtain ⟨u, evaluatedRight, evaluated⟩ := bind_eq_ok.mp evaluated
  exact ⟨v, u, evaluatedLeft, evaluatedRight, Function.value_eq_ok.mp evaluated⟩

theorem plain_operands (comparing : comparison? op = some f) {env : Environment}
    (plainly : (Expression.binary left op right).ComparesPlainly env) :
    left.IsPlain env ∧ right.IsPlain env := by
  cases op <;> cases comparing <;> exact plainly rfl

theorem basic_constant {env : Environment} {v : Value} (given : v ≠ .null)
    (plain : Expression.IsPlain env (.literal v)) :
    v.IsBasic ∧ (Expression.literal v).evaluate env = .ok v := by
  have evaluated : (Expression.literal v).evaluate env = .ok v := by
    simp [Expression.evaluate, given]
  have apart : v ≠ Value.unknown := by
    rintro rfl
    exact plain.spelled rfl
  exact ⟨Value.isBasic_of_isPlain (plain.values v evaluated) (Value.isUnknown_false given apart),
    evaluated⟩

/-- The three ways to compare: with a constant on the right, on the left, and without. -/
theorem comparisonOps_cases (op : BinaryOperator) (f : Function)
    (compiledLeft : valueOps b left = .ok first) (compiledRight : valueOps b right = .ok second) :
    (∃ v, right = .literal v ∧ v ≠ .null ∧ comparisonOps b op f left right =
        .ok (first ++ [isKnown, .is_ (comparisonPredicate op v)])) ∨
      (∃ v, left = .literal v ∧ v ≠ .null ∧ comparisonOps b op f left right =
        .ok (second ++ [isKnown, .is_ (comparisonPredicate (flipped op) v)])) ∨
      comparisonOps b op f left right = .ok (pairwise f first second ++ [isTrue]) := by
  unfold comparisonOps
  split
  · rename_i v _ constant
    obtain ⟨same, given⟩ := constant?_eq_some constant
    exact .inl ⟨v, same, given, by rw [compiledLeft]; rfl⟩
  · rename_i v constant _ _
    obtain ⟨same, given⟩ := constant?_eq_some constant
    exact .inr (.inl ⟨v, same, given, by rw [compiledRight]; rfl⟩)
  · exact .inr (.inr (by rw [compiledLeft, compiledRight]; rfl))

theorem HasCondition.comparison (comparing : comparison? op = some f)
    (compiledLeft : valueOps b left = .ok first) (compiledRight : valueOps b right = .ok second)
    (computesLeft : Computes b first fun env => left.evaluate env)
    (computesRight : Computes b second fun env => right.evaluate env)
    (compiledBoth : valueOps b (.binary left op right) = .ok (pairwise f first second))
    (computes : Computes b (pairwise f first second)
      fun env => (Expression.binary left op right).evaluate env) :
    HasCondition b (.binary left op right) := by
  have same : conditionOps b (.binary left op right) = comparisonOps b op f left right := by
    cases op <;> cases comparing <;> rfl
  rcases comparisonOps_cases op f compiledLeft compiledRight with
    ⟨u, rfl, given, compiled⟩ | ⟨u, rfl, given, compiled⟩ | compiled
  · refine ⟨_, _, same.trans compiled, computesLeft.isKnownAnd _, ?_⟩
    intro env without plainly w evaluated
    obtain ⟨plain, plainConstant⟩ := plain_operands comparing plainly
    obtain ⟨basic, itself⟩ := basic_constant given plainConstant
    obtain ⟨v, u', evaluatedLeft, evaluatedRight, applied⟩ :=
      evaluate_comparison comparing evaluated
    cases Except.ok.inj (itself.symm.trans evaluatedRight)
    have given' : v ≠ .null := by
      rintro rfl
      exact Expression.evaluate_ne_null without left evaluatedLeft
    simp only [evaluatedLeft]
    exact congrArg Except.ok
      (constant_right comparing applied (plain.values v evaluatedLeft) given' basic)
  · refine ⟨_, _, same.trans compiled, computesRight.isKnownAnd _, ?_⟩
    intro env without plainly w evaluated
    obtain ⟨plainConstant, plain⟩ := plain_operands comparing plainly
    obtain ⟨basic, itself⟩ := basic_constant given plainConstant
    obtain ⟨u', v, evaluatedLeft, evaluatedRight, applied⟩ :=
      evaluate_comparison comparing evaluated
    cases Except.ok.inj (itself.symm.trans evaluatedLeft)
    have given' : v ≠ .null := by
      rintro rfl
      exact Expression.evaluate_ne_null without right evaluatedRight
    simp only [evaluatedRight]
    exact congrArg Except.ok
      (constant_left comparing applied (plain.values v evaluatedRight) given' basic)
  · exact .byValue compiledBoth computes (by rw [same, compiled, compiledBoth]; rfl)

theorem HasCondition.both (conditionLeft : HasCondition b left)
    (conditionRight : HasCondition b right) : HasCondition b (.binary left .and right) := by
  obtain ⟨condition, c, compiled, decides, accepts⟩ := conditionLeft
  obtain ⟨other, d, compiledRight, decidesRight, acceptsRight⟩ := conditionRight
  refine ⟨_, _, ?_, decides.both decidesRight, ?_⟩
  · rw [conditionOps, compiled, compiledRight]
    rfl
  · intro env without plainly w evaluated
    obtain ⟨v, evaluatedLeft, evaluated⟩ := bind_eq_ok.mp evaluated
    obtain ⟨u, evaluatedRight, evaluated⟩ := bind_eq_ok.mp evaluated
    have result := Function.and_result (Function.value_eq_ok.mp evaluated)
    simp only [accepts env without plainly.1 v evaluatedLeft,
      acceptsRight env without plainly.2 u evaluatedRight]
    by_cases first : v = .bool true <;> simp [bind, Except.bind, result, first]

theorem HasCondition.either (conditionLeft : HasCondition b left)
    (conditionRight : HasCondition b right) : HasCondition b (.binary left .or right) := by
  obtain ⟨condition, c, compiled, decides, accepts⟩ := conditionLeft
  obtain ⟨other, d, compiledRight, decidesRight, acceptsRight⟩ := conditionRight
  refine ⟨_, _, ?_, decides.either decidesRight, ?_⟩
  · rw [conditionOps, compiled, compiledRight]
    rfl
  · intro env without plainly w evaluated
    obtain ⟨v, evaluatedLeft, evaluated⟩ := bind_eq_ok.mp evaluated
    obtain ⟨u, evaluatedRight, evaluated⟩ := bind_eq_ok.mp evaluated
    have result := Function.or_result (Function.value_eq_ok.mp evaluated)
    simp only [accepts env without plainly.1 v evaluatedLeft,
      acceptsRight env without plainly.2 u evaluatedRight]
    by_cases first : v = .bool true <;> simp [bind, Except.bind, result, first]

theorem HasCondition.membership (without : function? op = none) {p : Predicate}
    (tested : membership op right = .ok p) (compiled : valueOps b left = .ok first)
    (computes : Computes b first fun env => left.evaluate env) :
    HasCondition b (.binary left op right) := by
  have function : op.operation? = none := function?_eq op ▸ without
  have found := membership_test without tested
  have compiledCondition : conditionOps b (.binary left op right) =
      .ok (first ++ [isKnown, .is_ p]) := by
    cases op <;> cases without <;>
      simp only [conditionOps, comparison?, function?, tested, compiled] <;> rfl
  refine .byTest (fun v => .ok (Expression.tested p v)) compiledCondition
    (computes.isKnownAnd p) ?_ ?_
  · intro env
    simp only [Expression.evaluate, function, found]
    rfl
  · intro v w computed
    cases computed
    by_cases unknown : v = Value.unknown
    · simp [Expression.tested, unknown, Value.unknown]
    · simp [Expression.tested, unknown]

end Operator

/-- Every expression that has a value has a condition. Only the operands of conjunctions and
disjunctions are conditions themselves; all others are computed as values. -/
theorem value_has_condition : (e : Expression) → {operations : Ops} →
    valueOps b e = .ok operations → Performs operations → HasCondition b e
  | .binary left op right, operations, compiled, performs => by
      have computes := valueOps_computes _ compiled performs
      cases function : function? op with
      | none =>
          obtain ⟨operand, p, compiledLeft, tested, rfl, performsLeft⟩ :=
            membership_compiled function compiled performs
          exact .membership function tested compiledLeft
            (valueOps_computes left compiledLeft performsLeft)
      | some f =>
          obtain ⟨first, second, compiledLeft, compiledRight, rfl, performsLeft, performsRight⟩ :=
            pairwise_compiled function compiled performs
          cases comparing : comparison? op with
          | some g =>
              have same : g = f := by cases op <;> cases comparing <;> cases function <;> rfl
              subst same
              exact .comparison comparing compiledLeft compiledRight
                (valueOps_computes left compiledLeft performsLeft)
                (valueOps_computes right compiledRight performsRight) compiled computes
          | none =>
              cases op with
              | and =>
                  exact .both (value_has_condition left compiledLeft performsLeft)
                    (value_has_condition right compiledRight performsRight)
              | or =>
                  exact .either (value_has_condition left compiledLeft performsLeft)
                    (value_has_condition right compiledRight performsRight)
              | xor | add | sub | mul | div | mod => exact .byValue compiled computes rfl
              | eq | ne | lt | le | gt | ge => cases comparing
              | in_ | startsWith | endsWith | contains => cases function
  | .not operand, operations, compiled, performs => by
      obtain ⟨inside, compiledInside, same⟩ := bind_eq_ok.mp compiled
      cases same
      have computes := valueOps_computes operand compiledInside performs.left
      have compiledCondition : conditionOps b (.not operand) = .ok (inside ++ [isFalse]) := by
        rw [conditionOps, compiledInside]
        rfl
      refine .byTest _ compiledCondition (computes.isBool false) (fun env => rfl) ?_
      intro v w computed
      simp [Function.not_result (Function.value_eq_ok.mp computed)]
  | .isNull operand, operations, compiled, performs => by
      obtain ⟨inside, compiledInside, same⟩ := bind_eq_ok.mp compiled
      cases same
      have computes := valueOps_computes operand compiledInside
        (performs.inside List.mem_cons_self List.mem_cons_self).left
      have compiledCondition : conditionOps b (.isNull operand) =
          .ok (inside ++ [Cypher.isUnknown]) := by
        rw [conditionOps, compiledInside]
        rfl
      refine .byTest _ compiledCondition computes.isUnknown (fun env => rfl) ?_
      intro v w computed
      cases computed
      simp
  | .isNotNull operand, operations, compiled, performs => by
      obtain ⟨inside, compiledInside, same⟩ := bind_eq_ok.mp compiled
      cases same
      have computes := valueOps_computes operand compiledInside
        (performs.inside List.mem_cons_self List.mem_cons_self).left
      have compiledCondition : conditionOps b (.isNotNull operand) =
          .ok (inside ++ [Cypher.isKnown]) := by
        rw [conditionOps, compiledInside]
        rfl
      refine .byTest _ compiledCondition computes.isKnown (fun env => rfl) ?_
      intro v w computed
      cases computed
      simp
  | .literal v, _, compiled, performs => by
      have computes := valueOps_computes _ compiled performs
      cases v with
      | null =>
          refine ⟨_, _, rfl, Leads.never, ?_⟩
          intro env _ _ w evaluated
          cases evaluated
          rfl
      | bool truth =>
          cases truth with
          | false =>
              refine ⟨_, _, rfl, Leads.never, ?_⟩
              intro env _ _ w evaluated
              cases evaluated
              rfl
          | true =>
              refine ⟨_, _, rfl, Leads.always, ?_⟩
              intro env _ _ w evaluated
              cases evaluated
              rfl
      | _ => exact .byValue compiled computes rfl
  | .reference name, _, compiled, performs =>
      .byValue compiled (valueOps_computes _ compiled performs) rfl
  | .property owner key, _, compiled, performs =>
      .byValue compiled (valueOps_computes _ compiled performs) rfl
  | .list items, _, compiled, performs =>
      .byValue compiled (valueOps_computes _ compiled performs) rfl
  | .map entries, _, compiled, performs =>
      .byValue compiled (valueOps_computes _ compiled performs) rfl
  | .negate operand, _, compiled, performs =>
      .byValue compiled (valueOps_computes _ compiled performs) rfl
  | .call name distinct arguments, _, compiled, performs =>
      .byValue compiled (valueOps_computes _ compiled performs) rfl
  | .countAll, _, compiled, _ => by cases compiled

/-- The filter for a condition is built, lets a row pass or not, and changes nothing. -/
def FiltersRow (b : Bindings) (e : Expression) (engine : Engine) (world : World) (t : Traverser)
    (passes : Bool) : Prop :=
  ∃ (condition : Script) (filter : Live), conditionScript b e = .ok condition ∧
    (Script.of [.nested .where_ [condition]]).perform Backend.floating = .ok filter ∧
    (filter.plan.run engine [t]).run world = (.ok (if passes then [t] else []), world)

theorem filters_row {c : Environment → Except ExecutionFault Bool}
    (compiled : conditionOps b e = .ok operations) (decides : Decides b operations c) (engine : Engine)
    {world : World} {t : Traverser} (covers : (Environment.seenFrom b world t).Covers b)
    {passes : Bool} (decided : c (.seenFrom b world t) = .ok passes) :
    FiltersRow b e engine world t passes := by
  obtain ⟨filter, built, run⟩ := decides.filter
  refine ⟨.of operations, filter, by rw [conditionScript, compiled]; rfl, built, ?_⟩
  have gives := run engine world t covers
  rw [decided] at gives
  exact gives

/-- Where an expression has a value on a row, the condition made of it lets the row pass if the
value is true, and the condition made of its negation if the value is false. -/
theorem where_agrees_with_return {script : Script} {l : Live}
    (translated : valueScript b e = .ok script) (built : script.perform Backend.floating = .ok l)
    (engine : Engine) (world : World) (t : Traverser) (row : world.IsRow t b)
    (stores : world.store.graph.StoresNoNull)
    (plainly : e.ComparesPlainly (.seenFrom b world t)) {stream : Stream} {after : World}
    (returned : (l.plan.run engine [t]).run world = (.ok stream, after)) :
    ∃ u : Traverser, stream = [u] ∧ after = world ∧
      FiltersRow b e engine world t (decide (u.object = .bool true)) ∧
      FiltersRow b (.not e) engine world t (decide (u.object = .bool false)) := by
  obtain ⟨operations, compiled, rfl⟩ := map_eq_ok.mp translated
  have computes := valueOps_computes e compiled ⟨l, built⟩
  obtain ⟨plan, makes, run⟩ := computes.child
  have shown := run engine world t row.covers
  rw [← Builds.held makes built] at shown
  cases evaluated : e.evaluate (.seenFrom b world t) with
  | error fault =>
      rw [evaluated] at shown
      cases returned.symm.trans shown
  | ok w =>
      rw [evaluated] at shown
      obtain ⟨stream', gives, u, rfl, rfl⟩ := shown
      cases returned.symm.trans gives
      obtain ⟨condition, c, compiledCondition, decides, accepts⟩ :=
        value_has_condition e compiled ⟨l, built⟩
      have decided := accepts _ (row.hasNoNull stores) plainly _ evaluated
      have compiledNot : conditionOps b (.not e) = .ok (operations ++ [isFalse]) := by
        rw [conditionOps, compiled]
        rfl
      refine ⟨u, rfl, rfl, filters_row compiledCondition decides engine row.covers decided, ?_⟩
      refine filters_row compiledNot (computes.isBool false) engine row.covers ?_
      simp only [evaluated]
      rfl

/-- A vertex without a name, whose age is compared with a constant. -/
theorem age_or_name_filters_vertex : ∃ u : Traverser, u.object = .bool true ∧
    FiltersRow [("n", .node)]
      (.binary (.binary (.property "n" "age") .gt (.literal (.int 2))) .or
        (.binary (.literal (.string "Ada")) .eq (.property "n" "name")))
      (.standard 0) ⟨(Store.empty.addVertex "person" [("age", .int 3)]).2, []⟩
      ⟨⟨["n"], .vertex ⟨⟨1⟩, "person"⟩⟩, [], []⟩ true := by
  have binds : Traverser.Binds ⟨⟨["n"], .vertex ⟨⟨1⟩, "person"⟩⟩, [], []⟩ [("n", .node)] := by
    intro name kind declared _
    simp [Dictionary.get?] at declared
    simp [← declared.1, Traverser.labelled]
  have exposes : World.Exposes ⟨(Store.empty.addVertex "person" [("age", .int 3)]).2, []⟩
      ⟨⟨["n"], .vertex ⟨⟨1⟩, "person"⟩⟩, [], []⟩ [("n", .node)] := by
    intro name _
    exact ⟨rfl, rfl⟩
  have row : World.IsRow ⟨(Store.empty.addVertex "person" [("age", .int 3)]).2, []⟩
      ⟨⟨["n"], .vertex ⟨⟨1⟩, "person"⟩⟩, [], []⟩ [("n", .node)] := by
    refine .of_labels binds exposes fun name declared => ?_
    simp [Traverser.labelled]
  have stores : Graph.StoresNoNull (Store.empty.addVertex "person" [("age", .int 3)]).2.graph := by
    refine ⟨?_, ?_⟩
    · intro v member
      cases List.mem_singleton.mp member
      decide
    · intro e member
      cases member
  obtain ⟨u, same, _, filters, _⟩ := where_agrees_with_return (b := [("n", .node)])
    (e := .binary (.binary (.property "n" "age") .gt (.literal (.int 2))) .or
        (.binary (.literal (.string "Ada")) .eq (.property "n" "name"))) rfl rfl (.standard 0) _ _ row
    stores
    ⟨fun _ => ⟨⟨by simp, fun _ evaluated => by cases evaluated; rfl⟩,
        ⟨by simp [Value.unknown], fun _ evaluated => by cases evaluated; rfl⟩⟩,
      fun _ => ⟨⟨by simp [Value.unknown, Value.nullText],
          fun _ evaluated => by cases evaluated; rfl⟩,
        ⟨by simp, fun _ evaluated => by cases evaluated; rfl⟩⟩⟩ rfl
  have value : u.object = .bool true := by
    cases same
    rfl
  rw [value] at filters
  exact ⟨u, value, filters⟩

end Cypher

end PropertyGraph
