import PropertyGraph.Error
import PropertyGraph.Proofs.Run.Sums

/-!
Arithmetic on two integers. It comes to the exact result where there is one within 64 bits, and is
refused everywhere else; nothing is cut off or wrapped around. One remainder alone is refused though
it is zero: that of the least integer by -1, where the quotient does not fit.
-/

namespace PropertyGraph.Function

open Reduce (Fits int64?_fits)

def isArithmetic : Function → Bool
  | .plus | .minus | .multiply | .divide | .modulo => true
  | _ => false

/-- The exact result, if there is one. A quotient is cut toward zero, and a remainder has the sign
of the dividend. -/
def exactResult? : Function → Int → Int → Option Int
  | .plus, a, b => some (a + b)
  | .minus, a, b => some (a - b)
  | .multiply, a, b => some (a * b)
  | .divide, a, b => if b = 0 then none else some (a.tdiv b)
  | .modulo, a, b => if b = 0 then none else some (a.tmod b)
  | _, _, _ => none

/-- How it is reported that there is no result. -/
def refusal (f : Function) (divisor : Int64) : Fault :=
  match f, decide (divisor = 0) with
  | .divide, true => .divisionByZero
  | .modulo, true => .remainderByZero
  | f, _ => .overflow f

variable {f : Function} {a b i : Int64} {r : Int}

theorem int64?_eq_some : int64? r = some i ↔ r = i.toInt := by
  constructor
  · exact fun fits => (int64?_toInt fits).symm
  · rintro rfl
    obtain ⟨n, fits⟩ := int64?_fits.mpr ⟨i.le_toInt, i.toInt_lt⟩
    rw [fits, Int64.toInt_inj.mp (int64?_toInt fits)]

/-- A quotient is no further from zero than its dividend, and no more than half as far if the
divisor is not 1 or -1. -/
theorem quotient_fits (nonzero : b ≠ 0) (inside : ¬(a = Int64.minValue ∧ b = -1)) :
    Fits (a.toInt.tdiv b.toInt) := by
  have divisor : b.toInt ≠ 0 := fun same => nonzero (Int64.toInt_inj.mp same)
  have low : -(twoTo 63 : Int) ≤ a.toInt := a.le_toInt
  have high : a.toInt < twoTo 63 := a.toInt_lt
  unfold Fits
  rcases Nat.lt_or_ge b.toInt.natAbs 2 with unit | large
  · have ends : b.toInt = 1 ∨ b.toInt = -1 := by omega
    rcases ends with one | minusOne
    · rw [one, Int.tdiv_one]
      exact ⟨low, high⟩
    · have least : a.toInt ≠ -(twoTo 63 : Int) := fun same =>
        inside ⟨Int64.toInt_inj.mp same, Int64.toInt_inj.mp minusOne⟩
      rw [minusOne, Int.tdiv_neg, Int.tdiv_one]
      omega
  · have half : (a.toInt.tdiv b.toInt).natAbs ≤ a.toInt.natAbs / 2 := by
      rw [Int.natAbs_tdiv]
      exact Nat.div_le_div_left large (by decide)
    have some_ : 0 < twoTo 63 := Nat.two_pow_pos 63
    omega

/-- The quotient is looked at first, so where it fits it makes no difference. -/
theorem checkedRemainder_eq (nonzero : b ≠ 0) (inside : ¬(a = Int64.minValue ∧ b = -1)) :
    checkedRemainder a.toInt b.toInt = int64? (a.toInt.tmod b.toInt) := by
  obtain ⟨n, fits⟩ := int64?_fits.mpr (quotient_fits nonzero inside)
  rw [checkedRemainder, fits]
  rfl

theorem arithmetic_ints (f : Function) (onIntegers : Int → Int → Option Int64)
    (onFloats : Binary64 → Binary64 → Binary64) (a b : Int64) :
    arithmetic f onIntegers onFloats (.int a) (.int b) =
      match onIntegers a.toInt b.toInt with
      | some i => .ok (.int i)
      | none => .error (.overflow f) := rfl

/-- On two integers a function comes to its exact result if that fits, and is refused otherwise. -/
theorem apply_ints (arithmetic : f.isArithmetic = true)
    (inside : ¬(f = .modulo ∧ a = Int64.minValue ∧ b = -1)) :
    f.apply (.list [.int a, .int b]) =
      match (f.exactResult? a.toInt b.toInt).bind int64? with
      | some i => .ok (.int i)
      | none => .error (f.refusal b) := by
  have zero : b.toInt = 0 ↔ b = 0 := Int64.toInt_inj (y := 0)
  have divisor : (Value.int b = .int 0) = (b = 0) := by simp
  cases f with
  | plus | minus | multiply => rfl
  | divide =>
      change (if Value.int b = .int 0 then Except.error Fault.divisionByZero else _) = _
      simp only [divisor, exactResult?, zero, refusal]
      by_cases nothing : b = 0
      · simp [nothing]
      · simp only [nothing, if_false, decide_false]
        exact arithmetic_ints _ _ _ a b
  | modulo =>
      change (if Value.int b = .int 0 then Except.error Fault.remainderByZero else _) = _
      simp only [divisor, exactResult?, zero, refusal]
      by_cases nothing : b = 0
      · simp [nothing]
      · simp only [nothing, if_false, decide_false, arithmetic_ints]
        rw [checkedRemainder_eq nothing fun corner => inside ⟨rfl, corner⟩]
        rfl
  | _ => cases arithmetic

/-- Arithmetic on two integers is exact, or else it is refused. -/
theorem integer_arithmetic_is_exact_or_refused (arithmetic : f.isArithmetic = true)
    (inside : ¬(f = .modulo ∧ a = Int64.minValue ∧ b = -1)) :
    (∀ i : Int64, f.apply (.list [.int a, .int b]) = .ok (.int i) ↔
      f.exactResult? a.toInt b.toInt = some i.toInt) ∧
    ((¬∃ i : Int64, f.exactResult? a.toInt b.toInt = some i.toInt) →
      f.apply (.list [.int a, .int b]) = .error (f.refusal b) ∧
        (Error.execution (.function (f.refusal b))).kind = .execution) := by
  have exact_ (i : Int64) : (f.exactResult? a.toInt b.toInt).bind int64? = some i ↔
      f.exactResult? a.toInt b.toInt = some i.toInt := by
    simp [Option.bind_eq_some_iff, int64?_eq_some]
  rw [apply_ints arithmetic inside]
  cases found : (f.exactResult? a.toInt b.toInt).bind int64? with
  | some i =>
      have same := (exact_ i).mp found
      refine ⟨fun j => ?_, fun nothing => absurd ⟨i, same⟩ nothing⟩
      rw [same]
      simp [Int64.toInt_inj]
  | none =>
      refine ⟨fun j => ?_, fun _ => ⟨rfl, rfl⟩⟩
      rw [← exact_, found]
      simp

/-- A remainder of a negative dividend is negative, also of the least integer. -/
theorem remainder_of_the_least_integer_by_ten :
    (modulo.isArithmetic = true ∧
        ¬(modulo = .modulo ∧ Int64.minValue = Int64.minValue ∧ (10 : Int64) = -1)) ∧
      modulo.apply (.list [.int Int64.minValue, .int 10]) = .ok (.int (-8)) := by
  have inside : ¬(modulo = .modulo ∧ Int64.minValue = Int64.minValue ∧ (10 : Int64) = -1) := by
    decide
  refine ⟨⟨rfl, inside⟩, ?_⟩
  exact ((integer_arithmetic_is_exact_or_refused rfl inside).1 (-8)).mpr (by decide)

/-- Of the least integer by -1 the remainder is zero, but it is refused. -/
theorem remainder_of_the_least_integer_by_less_one :
    modulo.exactResult? Int64.minValue.toInt (-1 : Int64).toInt = some (0 : Int64).toInt ∧
      modulo.apply (.list [.int Int64.minValue, .int (-1)]) = .error (.overflow .modulo) :=
  ⟨rfl, rfl⟩

end PropertyGraph.Function
