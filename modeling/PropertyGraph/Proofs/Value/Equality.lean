import Mathlib.Data.List.Forall2
import PropertyGraph.Function.Apply
import PropertyGraph.Program.Predicate
import PropertyGraph.Proofs.Value.Preorder

/-!
The two equalities of values. Functions take values for equal that the order does not tell apart;
predicates take two numbers for equal if their values are, and any other two values if they are the
same. Main statement: they disagree exactly on numbers that are none, on zeros of either sign, and
on different values that tie.
-/

namespace PropertyGraph

namespace Binary64

variable {x y : Binary64}

theorem partialCompare_eq : x.partialCompare y = some .eq ↔
    x.isNaN = false ∧ y.isNaN = false ∧ (x = y ∨ x.isZero = true ∧ y.isZero = true) := by
  have keys : x.valueKey = y.valueKey ↔ x = y ∨ x.isZero = true ∧ y.isZero = true := by
    simp only [isZero, beq_iff_eq]
    constructor
    · intro same
      unfold valueKey at same
      cases signX : x.negative <;> cases signY : y.negative <;> rw [signX, signY] at same <;>
        simp only [Bool.false_eq_true, if_false, if_true] at same
      case false.true | true.false => exact .inr (by omega)
      all_goals exact .inl (ext_of_parts (signX.trans signY.symm) (by omega))
    · rintro (rfl | ⟨zeroX, zeroY⟩)
      · rfl
      · simp [valueKey, zeroX, zeroY]
  rw [partialCompare]
  cases nanX : x.isNaN <;> cases nanY : y.isNaN <;> simp [keys]

theorem isNaN_ofInt (i : Int) : (ofInt i).isNaN = false := by
  have capped : magnitudeOf i ≤ infinityMagnitude := Nat.min_le_right _ _
  rw [isNaN, ofInt_eq, magnitude_ofMagnitude (magnitudeOf_lt i)]
  simpa using capped

theorem eq_zero_of_isZero {i : Int} (zero : (ofInt i).isZero = true) : i = 0 := by
  rw [isZero, ofInt_eq, magnitude_ofMagnitude (magnitudeOf_lt i), beq_iff_eq] at zero
  by_cases nothing : i = 0
  · exact nothing
  · have least : magnitudeOf 1 ≤ magnitudeOf i := magnitudeOf_mono (by omega)
    have positive : 0 < magnitudeOf 1 := by decide +kernel
    omega

end Binary64

namespace Value

variable {v w : Value}

/-- What the order does not tell apart: unknown values, an integer and the number that it rounds to,
elements of one identity, properties whatever they belong to, maps of one size, and lists item by
item. -/
inductive Ties : Value → Value → Prop
  | same (v : Value) : Ties v v
  | unknown {v w : Value} (first : v.isUnknown = true) (second : w.isUnknown = true) : Ties v w
  | rounded (i : Int64) : Ties (.int i) (.float (.ofInt i.toInt))
  | rounding (i : Int64) : Ties (.float (.ofInt i.toInt)) (.int i)
  | vertex {a b : VertexRef} (same : a.id = b.id) : Ties (.vertex a) (.vertex b)
  | edge {a b : EdgeRef} (same : a.id = b.id) : Ties (.edge a) (.edge b)
  | property (owner other : Owner) (key : String) {v w : Value} (ties : Ties v w) :
      Ties (.property owner key v) (.property other key w)
  | list {vs ws : List Value} (items : List.Forall₂ Ties vs ws) : Ties (.list vs) (.list ws)
  | map {first second : List (Value × Value)} (sizes : first.length = second.length) :
      Ties (.map first) (.map second)

theorem ties_of_kinds (tie : v.order w = .eq) (alike : v.isUnknown = false →
    w.isUnknown = false → v.rank = w.rank → v.Ties w) : v.Ties w := by
  have same := tie
  rw [order_eq_then, Ordering.then_eq_eq, Nat.compare_eq_eq] at same
  cases first : v.isUnknown with
  | true => exact .unknown first (isUnknown_of_place (same.1.symm.trans (place_unknown first)))
  | false =>
      cases second : w.isUnknown with
      | true =>
          rw [isUnknown_of_place (same.1.trans (place_unknown second))] at first
          cases first
      | false =>
          rw [place_known first, place_known second] at same
          exact alike first second same.1

mutual

theorem ties_of_order : (v w : Value) → v.order w = .eq → v.Ties w
  | .null, w, tie => ties_of_kinds tie nofun
  | .bool a, w, tie => ties_of_kinds tie fun _ _ same => by
      cases w with
      | bool b =>
          cases Std.LawfulEqOrd.compare_eq_iff_eq.mp tie
          exact .same _
      | _ => cases same
  | .int i, w, tie => ties_of_kinds tie fun _ _ same => by
      cases w with
      | int j =>
          cases Int64.toInt_inj.mp (Std.LawfulEqOrd.compare_eq_iff_eq.mp tie)
          exact .same _
      | float y =>
          rw [← Binary64.totalCompare_eq.mp tie]
          exact .rounded i
      | _ => cases same
  | .float x, w, tie => ties_of_kinds tie fun _ _ same => by
      cases w with
      | int j =>
          rw [Binary64.totalCompare_eq.mp tie]
          exact .rounding j
      | float y =>
          cases Binary64.totalCompare_eq.mp tie
          exact .same _
      | _ => cases same
  | .string a, w, tie => ties_of_kinds tie fun first second same => by
      cases w with
      | string b =>
          rw [order_string_known first second] at tie
          cases Std.LawfulEqOrd.compare_eq_iff_eq.mp tie
          exact .same _
      | _ => cases same
  | .list vs, w, tie => ties_of_kinds tie fun _ _ same => by
      cases w with
      | list ws => exact .list (tie_of_orderItems vs ws tie)
      | _ => cases same
  | .map a, w, tie => ties_of_kinds tie fun _ _ same => by
      cases w with
      | map b => exact .map (Std.LawfulEqOrd.compare_eq_iff_eq.mp tie)
      | _ => cases same
  | .vertex a, w, tie => ties_of_kinds tie fun _ _ same => by
      cases w with
      | vertex b =>
          have ids := Std.LawfulEqOrd.compare_eq_iff_eq.mp tie
          exact .vertex (congrArg VertexId.mk ids)
      | _ => cases same
  | .edge a, w, tie => ties_of_kinds tie fun _ _ same => by
      cases w with
      | edge b =>
          have ids := Std.LawfulEqOrd.compare_eq_iff_eq.mp tie
          exact .edge (congrArg EdgeId.mk ids)
      | _ => cases same
  | .property _ k v, w, tie => ties_of_kinds tie fun _ _ same => by
      cases w with
      | property _ l w =>
          obtain ⟨keys, values⟩ := Ordering.then_eq_eq.mp tie
          cases Std.LawfulEqOrd.compare_eq_iff_eq.mp keys
          exact .property _ _ k (ties_of_order v w values)
      | _ => cases same
termination_by structural v => v

theorem tie_of_orderItems : (vs ws : List Value) → orderItems vs ws = .eq →
    List.Forall₂ Ties vs ws
  | [], [], _ => .nil
  | [], _ :: _, tie => nomatch tie
  | _ :: _, [], tie => nomatch tie
  | v :: vs, w :: ws, tie => by
      obtain ⟨first, rest⟩ := Ordering.then_eq_eq.mp tie
      exact .cons (ties_of_order v w first) (tie_of_orderItems vs ws rest)
termination_by structural v => v

end

mutual

theorem order_of_ties : (v w : Value) → v.Ties w → v.order w = .eq
  | .property _ k v, _, ties => by
      cases ties with
      | same => exact order_self _
      | unknown first _ => cases first
      | property _ _ _ ties =>
          exact Ordering.then_eq_eq.mpr ⟨Std.ReflOrd.compare_self, order_of_ties v _ ties⟩
  | .list vs, _, ties => by
      cases ties with
      | same => exact order_self _
      | unknown first _ => cases first
      | list items => exact orderItems_of_ties vs _ items
  | .null, _, ties => by
      cases ties with
      | same => rfl
      | unknown first second => exact order_unknown first second
  | .bool _, _, ties => by
      cases ties with
      | same => exact order_self _
      | unknown first _ => cases first
  | .int _, _, ties => by
      cases ties with
      | same => exact order_self _
      | unknown first _ => cases first
      | rounded => exact order_rounded _
  | .float _, _, ties => by
      cases ties with
      | same => exact order_self _
      | unknown first _ => cases first
      | rounding => exact Binary64.totalCompare_eq.mpr rfl
  | .string _, _, ties => by
      cases ties with
      | same => exact order_self _
      | unknown first second => exact order_unknown first second
  | .map _, _, ties => by
      cases ties with
      | same => exact order_self _
      | unknown first _ => cases first
      | map sizes => exact Std.LawfulEqOrd.compare_eq_iff_eq.mpr sizes
  | .vertex _, _, ties => by
      cases ties with
      | same => exact order_self _
      | unknown first _ => cases first
      | vertex ids => exact Std.LawfulEqOrd.compare_eq_iff_eq.mpr (congrArg VertexId.toNat ids)
  | .edge _, _, ties => by
      cases ties with
      | same => exact order_self _
      | unknown first _ => cases first
      | edge ids => exact Std.LawfulEqOrd.compare_eq_iff_eq.mpr (congrArg EdgeId.toNat ids)
termination_by structural v => v

theorem orderItems_of_ties : (vs ws : List Value) → List.Forall₂ Ties vs ws →
    orderItems vs ws = .eq
  | [], _, ties => by
      cases ties
      rfl
  | v :: vs, _, ties => by
      cases ties with
      | cons first rest =>
          exact Ordering.then_eq_eq.mpr ⟨order_of_ties v _ first, orderItems_of_ties vs _ rest⟩
termination_by structural v => v

end

theorem order_eq_iff : v.order w = .eq ↔ v.Ties w := ⟨ties_of_order v w, order_of_ties v w⟩

/-- Where the two equalities come apart: what is no number equals itself only in the order, zeros of
either sign only by value, and values that tie without being numbers only in the order. -/
inductive Blurs : Value → Value → Prop
  | notNumber {x : Binary64} (none : x.isNaN = true) : Blurs (.float x) (.float x)
  | zeros {v w : Value} {x y : Binary64} (first : v.number? = some x) (second : w.number? = some y)
      (zero : x.isZero = true) (zero' : y.isZero = true) (signs : x ≠ y) : Blurs v w
  | ties {v w : Value} (ties : v.Ties w) (other : v.isNumber = false) (different : v ≠ w) :
      Blurs v w

theorem isNumber_of_number? {x : Binary64} (found : v.number? = some x) : v.isNumber = true := by
  cases v <;> first | rfl | cases found

theorem rank_of_isNumber (number : v.isNumber = true) : v.rank = 7 := by
  cases v <;> first | rfl | cases number

theorem not_blurs_of_other (number : v.isNumber = true) (other : w.isNumber = false) :
    ¬ v.Blurs w := by
  intro blurs
  cases blurs with
  | notNumber => cases other
  | zeros _ second => exact absurd (isNumber_of_number? second) (by simp [other])
  | ties _ other' => exact absurd number (by simp [other'])

theorem double_agree_iff (x y : Binary64) :
    (x.totalCompare y == .eq) = (x.partialCompare y == some .eq) ↔
      ¬ (x = y ∧ x.isNaN = true) ∧ ¬ (x ≠ y ∧ x.isZero = true ∧ y.isZero = true) := by
  have number {z : Binary64} (zero : z.isZero = true) : z.isNaN = false := by
    simp only [Binary64.isNaN, Binary64.isZero, beq_iff_eq] at zero ⊢
    simp [zero]
  rw [Bool.eq_iff_iff, beq_iff_eq, beq_iff_eq, Binary64.totalCompare_eq, Binary64.partialCompare_eq]
  by_cases same : x = y
  · subst same
    simp
  · grind

theorem blurs_numbers {x y : Binary64} (first : v.number? = some x) (second : w.number? = some y) :
    v.Blurs w ↔ v = w ∧ x.isNaN = true ∨ x ≠ y ∧ x.isZero = true ∧ y.isZero = true := by
  constructor
  · intro blurs
    cases blurs with
    | notNumber undefined =>
        cases first
        exact .inl ⟨rfl, undefined⟩
    | zeros left right zero zero' signs =>
        cases first.symm.trans left
        cases second.symm.trans right
        exact .inr ⟨signs, zero, zero'⟩
    | ties _ other =>
        rw [isNumber_of_number? first] at other
        cases other
  · rintro (⟨rfl, undefined⟩ | ⟨signs, zero, zero'⟩)
    · cases v with
      | float x =>
          cases first
          exact .notNumber undefined
      | int i =>
          rw [← Option.some.inj first, Binary64.isNaN_ofInt] at undefined
          cases undefined
      | _ => cases first
    · exact .zeros first second zero zero' signs

theorem integers_not_blurred (i j : Int64) : ¬ (int i).Blurs (.int j) := by
  rw [blurs_numbers rfl rfl, Binary64.isNaN_ofInt]
  rintro (⟨_, undefined⟩ | ⟨signs, zero, zero'⟩)
  · cases undefined
  · rw [Binary64.eq_zero_of_isZero zero, Binary64.eq_zero_of_isZero zero'] at signs
    exact signs rfl

theorem numbers_agree_iff (first : v.isNumber = true) (second : w.isNumber = true) :
    (v.order w == .eq) = Predicate.looselyEqual v w ↔ ¬ v.Blurs w := by
  have compared : Predicate.looselyEqual v w = (Predicate.comparison? v w == some .eq) := by
    rw [Predicate.looselyEqual, first, second]
    rfl
  rw [compared]
  cases v with
  | int i =>
      cases w with
      | int j => exact iff_of_true rfl (integers_not_blurred i j)
      | float y =>
          rw [blurs_numbers rfl rfl, Binary64.isNaN_ofInt]
          refine (double_agree_iff _ y).trans ?_
          simp [Binary64.isNaN_ofInt]
      | _ => cases second
  | float x =>
      cases w with
      | int j =>
          rw [blurs_numbers rfl rfl]
          refine (double_agree_iff x _).trans ?_
          have number : ¬ (x = Binary64.ofInt j.toInt ∧ x.isNaN = true) := by
            rintro ⟨rfl, undefined⟩
            rw [Binary64.isNaN_ofInt] at undefined
            cases undefined
          simp [number]
      | float y =>
          rw [blurs_numbers rfl rfl, not_or, float.injEq]
          exact double_agree_iff x y
      | _ => cases second
  | _ => cases first

/-- The order and the predicates take the same values for equal, those that blur apart. -/
theorem equal_agree_iff (first : v.isUnknown = false) (second : w.isUnknown = false) :
    (v.order w == .eq) = Predicate.looselyEqual v w ↔ ¬ v.Blurs w := by
  cases number : v.isNumber with
  | true =>
      cases other : w.isNumber with
      | true => exact numbers_agree_iff number other
      | false =>
          refine iff_of_true ?_ (not_blurs_of_other number other)
          have differ : v ≠ w := by
            rintro rfl
            rw [number] at other
            cases other
          have apart : v.order w ≠ .eq := by
            intro tie
            rw [order_eq_then, Ordering.then_eq_eq, Nat.compare_eq_eq, place_known first,
              place_known second, rank_of_isNumber number] at tie
            rw [isNumber_of_rank tie.1.symm] at other
            cases other
          rw [beq_false_of_ne apart, Predicate.looselyEqual, other, Bool.and_false]
          exact (beq_false_of_ne differ).symm
  | false =>
      have structural : Predicate.looselyEqual v w = (v == w) := by
        rw [Predicate.looselyEqual, number]
        rfl
      rw [structural, Bool.eq_iff_iff, beq_iff_eq, beq_iff_eq, order_eq_iff]
      constructor
      · intro same blurs
        cases blurs with
        | notNumber => cases number
        | zeros left => exact absurd (isNumber_of_number? left) (by simp [number])
        | ties ties _ different => exact different (same.mp ties)
      · intro clear
        refine ⟨fun ties => ?_, fun same => same ▸ .same v⟩
        by_contra different
        exact clear (.ties ties number different)

end Value

end PropertyGraph
