import PropertyGraph.Proofs.Cypher.Condition
import PropertyGraph.Proofs.Value.Equality

/-!
Equality in results and in conditions. As a value, a comparison is the function of its operator; as
a condition with a constant on one side, it is a predicate on the other side. Main statement: both
say the same of any two known values that the two equalities do not blur.
-/

namespace PropertyGraph

namespace Value

variable {v w : Value}

theorem looselyEqual_comm (v w : Value) :
    Predicate.looselyEqual w v = Predicate.looselyEqual v w := by
  have numbers {x y : Binary64} :
      (x.partialCompare y == some .eq) = (y.partialCompare x == some .eq) := by
    rw [Bool.eq_iff_iff, beq_iff_eq, beq_iff_eq, Binary64.partialCompare_eq,
      Binary64.partialCompare_eq]
    grind
  have structural : (w == v) = (v == w) := by
    rw [Bool.eq_iff_iff, beq_iff_eq, beq_iff_eq]
    exact eq_comm
  unfold Predicate.looselyEqual
  rw [Bool.and_comm]
  split
  · rename_i both
    rw [Bool.and_eq_true] at both
    cases v with
    | int i =>
        cases w with
        | int j =>
            simp only [Predicate.comparison?]
            rw [Std.OrientedOrd.eq_swap (a := j.toInt)]
            cases compare i.toInt j.toInt <;> rfl
        | float y => exact numbers
        | _ => cases both.2
    | float x =>
        cases w with
        | int j => exact numbers
        | float y => exact numbers
        | _ => cases both.2
    | _ => cases both.1
  · exact structural

end Value

namespace Cypher

open Exec Script

variable {b : Bindings} {op : BinaryOperator} {f : Function} {left right : Expression}
  {operations : Ops} {v w : Value}

/-- The equality of a value and its negation. -/
def equality? : BinaryOperator → Option Function
  | .eq => some .equals
  | .ne => some .notEquals
  | _ => none

theorem comparison_of_equality (equality : equality? op = some f) : comparison? op = some f := by
  cases op <;> cases equality <;> rfl

/-- Two values are equal, or different. -/
def saysEqual (op : BinaryOperator) (equal : Bool) : Bool := if op = .ne then !equal else equal

theorem apply_equality (equality : equality? op = some f) (first : v.isUnknown = false)
    (second : w.isUnknown = false) :
    f.apply (.list [v, w]) = .ok (.bool (saysEqual op (v.order w == .eq))) := by
  cases op <;> cases equality <;>
    simp only [Function.apply, Function.isUnary, first, second] <;> rfl

theorem test_equality (equality : equality? op = some f) :
    (comparisonPredicate op w).test v = saysEqual op (Predicate.looselyEqual v w) := by
  cases op <;> cases equality <;> rfl

theorem saysEqual_inj {equal equal' : Bool} :
    saysEqual op equal = saysEqual op equal' ↔ equal = equal' := by
  unfold saysEqual
  split
  · exact Bool.not_inj_iff
  · exact Iff.rfl

/-- What the function of an equality says of two known values is what its predicate says if and only
if the values do not blur. -/
theorem equality_agrees_iff (equality : equality? op = some f) (first : v.isUnknown = false)
    (second : w.isUnknown = false) :
    f.apply (.list [v, w]) = .ok (.bool ((comparisonPredicate op w).test v)) ↔ ¬ v.Blurs w := by
  rw [apply_equality equality first second, test_equality equality, Except.ok.injEq,
    Value.bool.injEq, saysEqual_inj]
  exact Value.equal_agree_iff first second

/-- On a row, the expression comes to a truth value, and as a condition it lets the row pass by the
same. -/
def MeansEverywhere (b : Bindings) (e : Expression) (engine : Engine) (world : World) (t : Traverser)
    (truth : Bool) : Prop :=
  ∀ (script : Script) (l : Live), valueScript b e = .ok script →
    script.perform Backend.floating = .ok l →
      (∃ u : Traverser, u.object = .bool truth ∧
        (l.plan.run engine [t]).run world = (.ok [u], world)) ∧
      FiltersRow b e engine world t truth

section Row

variable {engine : Engine} {world : World} {t : Traverser}

theorem value_shown {e : Expression} {script : Script} {l : Live}
    (translated : valueScript b e = .ok script) (built : script.perform Backend.floating = .ok l)
    (covers : (Environment.seenFrom b world t).Covers b)
    (evaluated : e.evaluate (.seenFrom b world t) = .ok v) : ∃ u : Traverser, u.object = v ∧
      (l.plan.run engine [t]).run world = (.ok [u], world) := by
  obtain ⟨operations, compiled, rfl⟩ := map_eq_ok.mp translated
  obtain ⟨plan, makes, run⟩ := (valueOps_computes e compiled ⟨l, built⟩).child
  have shown := run engine world t covers
  rw [← Builds.held makes built, evaluated] at shown
  obtain ⟨_, gives, u, rfl, same⟩ := shown
  exact ⟨u, same, gives⟩

theorem known_ne_unknown (known : v.isUnknown = false) : v ≠ Value.unknown := by
  rintro rfl
  cases known

theorem evaluate_constant {env : Environment} {u : Value} (given : u ≠ .null)
    (evaluated : (Expression.literal u).evaluate env = .ok v) : u = v := by
  rw [Expression.evaluate, if_neg given] at evaluated
  exact Except.ok.inj evaluated

theorem evaluate_equality (equality : equality? op = some f) {env : Environment}
    (evaluatedLeft : left.evaluate env = .ok v) (evaluatedRight : right.evaluate env = .ok w)
    (first : v.isUnknown = false) (second : w.isUnknown = false) (clear : ¬ v.Blurs w) :
    (Expression.binary left op right).evaluate env =
      .ok (.bool ((comparisonPredicate op w).test v)) := by
  have function : op.operation? = some f := by cases op <;> cases equality <;> rfl
  have applied := (equality_agrees_iff equality first second).mpr clear
  simp only [Expression.evaluate, evaluatedLeft, evaluatedRight, function]
  exact Function.value_eq_ok.mpr applied

theorem equality_filters (equality : equality? op = some f)
    (compiled : valueOps b (.binary left op right) = .ok operations)
    (performs : Performs operations) (covers : (Environment.seenFrom b world t).Covers b)
    (evaluatedLeft : left.evaluate (.seenFrom b world t) = .ok v)
    (evaluatedRight : right.evaluate (.seenFrom b world t) = .ok w)
    (first : v.isUnknown = false) (second : w.isUnknown = false) (clear : ¬ v.Blurs w) :
    FiltersRow b (.binary left op right) engine world t ((comparisonPredicate op w).test v) := by
  have comparing := comparison_of_equality equality
  have same : conditionOps b (.binary left op right) = comparisonOps b op f left right := by
    cases op <;> cases comparing <;> rfl
  have computes := valueOps_computes _ compiled performs
  have function : function? op = some f := by cases op <;> cases comparing <;> rfl
  obtain ⟨leftOps, rightOps, compiledLeft, compiledRight, rfl, performsLeft, performsRight⟩ :=
    pairwise_compiled function compiled performs
  have computesLeft := valueOps_computes left compiledLeft performsLeft
  have computesRight := valueOps_computes right compiledRight performsRight
  rcases comparisonOps_cases op f compiledLeft compiledRight with
    ⟨u, rfl, given, condition⟩ | ⟨u, rfl, given, condition⟩ | condition
  · cases evaluate_constant given evaluatedRight
    refine filters_row (same.trans condition) (computesLeft.isKnownAnd _) engine covers ?_
    simp only [evaluatedLeft]
    exact congrArg Except.ok (by simp [known_ne_unknown first])
  · cases evaluate_constant given evaluatedLeft
    refine filters_row (same.trans condition) (computesRight.isKnownAnd _) engine covers ?_
    have turned : (comparisonPredicate (flipped op) v).test w =
        (comparisonPredicate op w).test v := by
      cases op <;> cases equality <;>
        simp only [flipped, comparisonPredicate, Predicate.test, Value.looselyEqual_comm v w]
    simp only [evaluatedRight]
    exact congrArg Except.ok (by simp [known_ne_unknown second, turned])
  · have asked : conditionOps b (.binary left op right) =
        .ok (pairwise f leftOps rightOps ++ [isTrue]) := same.trans condition
    refine filters_row asked (computes.isBool true) engine covers ?_
    have evaluated :=
      evaluate_equality equality evaluatedLeft evaluatedRight first second clear
    simp only [evaluated]
    exact congrArg Except.ok (by simp)

theorem equality_means_everywhere (equality : equality? op = some f)
    (covers : (Environment.seenFrom b world t).Covers b)
    (evaluatedLeft : left.evaluate (.seenFrom b world t) = .ok v)
    (evaluatedRight : right.evaluate (.seenFrom b world t) = .ok w)
    (first : v.isUnknown = false) (second : w.isUnknown = false) (clear : ¬ v.Blurs w) :
    MeansEverywhere b (.binary left op right) engine world t
      ((comparisonPredicate op w).test v) := by
  intro script l translated built
  have evaluated := evaluate_equality equality evaluatedLeft evaluatedRight first second clear
  refine ⟨value_shown translated built covers evaluated, ?_⟩
  obtain ⟨operations, compiled, rfl⟩ := map_eq_ok.mp translated
  exact equality_filters equality compiled ⟨l, built⟩ covers evaluatedLeft evaluatedRight first
    second clear

end Row

/-- The functions `equals` and `notEquals` say of two known values what the predicates `eq` and
`neq` say if and only if the values do not blur. Expressions that come to such values are equal as
results if and only if they are equal in conditions. -/
theorem equalities_agree_unless_blurred (first : v.isUnknown = false)
    (second : w.isUnknown = false) :
    (Function.equals.apply (.list [v, w]) = .ok (.bool (Predicate.test (.eq w) v)) ↔
        ¬ v.Blurs w) ∧
      (Function.notEquals.apply (.list [v, w]) = .ok (.bool (Predicate.test (.neq w) v)) ↔
        ¬ v.Blurs w) ∧
      ∀ (b : Bindings) (left right : Expression) (engine : Engine) (world : World) (t : Traverser),
        (Environment.seenFrom b world t).Covers b →
        left.evaluate (.seenFrom b world t) = .ok v →
        right.evaluate (.seenFrom b world t) = .ok w → ¬ v.Blurs w →
          MeansEverywhere b (.binary left .eq right) engine world t (Predicate.test (.eq w) v) ∧
          MeansEverywhere b (.binary left .ne right) engine world t (Predicate.test (.neq w) v) := by
  have equals : equality? .eq = some .equals := rfl
  have differs : equality? .ne = some .notEquals := rfl
  refine ⟨equality_agrees_iff equals first second, equality_agrees_iff differs first second, ?_⟩
  intro b left right engine world t covers evaluatedLeft evaluatedRight clear
  constructor
  · exact equality_means_everywhere equals covers evaluatedLeft evaluatedRight first second clear
  · exact equality_means_everywhere differs covers evaluatedLeft evaluatedRight first second clear

/-- A row whose vertex has the age 2, which is asked for as 2.0. -/
theorem whole_numbers_agree_in_both_kinds :
    (Value.int 2).isUnknown = false ∧ (Value.float (.ofInt 2)).isUnknown = false ∧
      Function.equals.apply (.list [.int 2, .float (.ofInt 2)]) = .ok (.bool true) ∧
      MeansEverywhere [("n", .node)]
        (.binary (.property "n" "age") .eq (.literal (.float (.ofInt 2)))) (.standard 0)
        ⟨(Store.empty.addVertex "person" [("age", .int 2)]).2, []⟩
        ⟨⟨["n"], .vertex ⟨⟨1⟩, "person"⟩⟩, [], []⟩ true := by
  have clear : ¬ (Value.int 2).Blurs (.float (.ofInt 2)) := by
    rw [Value.blurs_numbers rfl rfl, Binary64.isNaN_ofInt]
    rintro (⟨_, undefined⟩ | ⟨signs, _⟩)
    · cases undefined
    · exact signs rfl
  have equal : Predicate.test (.eq (.float (.ofInt 2))) (.int 2) = true := by decide +kernel
  obtain ⟨agree, _, anywhere⟩ :=
    equalities_agree_unless_blurred (v := .int 2) (w := .float (.ofInt 2)) rfl rfl
  have applied := agree.mpr clear
  rw [equal] at anywhere applied
  refine ⟨rfl, rfl, applied, (anywhere _ _ _ (.standard 0) _ _ ?_ rfl rfl clear).1⟩
  intro name declared
  simp only [Dictionary.get?] at declared
  split at declared
  · rename_i same
    cases same
    rfl
  · cases declared

/-- Maps of one size are equal as results, and different in conditions. -/
theorem maps_of_one_size_are_equal_only_as_results :
    Function.equals.apply (.list [.map [(.string "x", .int 1)], .map [(.string "y", .int 2)]]) =
        .ok (.bool true) ∧
      Predicate.test (.eq (.map [(.string "y", .int 2)])) (.map [(.string "x", .int 1)]) = false :=
  ⟨rfl, rfl⟩

end Cypher

end PropertyGraph
