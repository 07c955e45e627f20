import PropertyGraph.Number.Binary64

/-!
The order of double-precision numbers by their patterns. Each pattern has a key of its own, and
rounding integers to double precision keeps their order.
-/

namespace PropertyGraph.Binary64

theorem toNat_bits (x : Binary64) :
    x.bits.toNat = (if x.negative then twoTo 63 else 0) + x.magnitude := by
  have bounded : x.bits.toNat < 2 * twoTo 63 := x.bits.toNat_lt
  unfold negative magnitude
  generalize x.bits.toNat = n at *
  generalize twoTo 63 = sign at *
  by_cases above : sign ≤ n
  · have rest : (n - sign) % sign = n - sign := Nat.mod_eq_of_lt (by omega)
    rw [Nat.mod_eq_sub_mod above, rest]
    simp [above]
  · rw [Nat.mod_eq_of_lt (Nat.lt_of_not_le above)]
    simp [above]

theorem ext_of_parts {x y : Binary64} (sign : x.negative = y.negative)
    (magnitude : x.magnitude = y.magnitude) : x = y := by
  have same : x.bits.toNat = y.bits.toNat := by rw [toNat_bits, toNat_bits, sign, magnitude]
  cases x
  cases y
  exact congrArg Binary64.mk (UInt64.toNat_inj.mp same)

theorem orderKey_inj {x y : Binary64} : x.orderKey = y.orderKey ↔ x = y := by
  refine ⟨fun same => ?_, congrArg orderKey⟩
  unfold orderKey at same
  cases signX : x.negative <;> cases signY : y.negative <;> rw [signX, signY] at same <;>
    simp only [Bool.false_eq_true, if_false, if_true] at same
  -- keys of opposite signs lie on either side of zero
  case false.true | true.false => omega
  all_goals exact ext_of_parts (signX.trans signY.symm) (by omega)

theorem totalCompare_eq {x y : Binary64} : x.totalCompare y = .eq ↔ x = y := by
  rw [totalCompare, Std.LawfulEqOrd.compare_eq_iff_eq, orderKey_inj]

section OfMagnitude

variable {sign : Bool} {m : Nat}

theorem toNat_ofMagnitude (small : m < twoTo 63) :
    (ofMagnitude sign m).bits.toNat = (if sign then twoTo 63 else 0) + m := by
  refine UInt64.toNat_ofNat_of_lt' ?_
  change _ < 2 * twoTo 63
  split <;> omega

theorem magnitude_ofMagnitude (small : m < twoTo 63) : (ofMagnitude sign m).magnitude = m := by
  rw [magnitude, toNat_ofMagnitude small]
  cases sign with
  | true => simp [Nat.mod_eq_of_lt small]
  | false => simp [Nat.mod_eq_of_lt small]

theorem negative_ofMagnitude (small : m < twoTo 63) : (ofMagnitude sign m).negative = sign := by
  rw [negative, toNat_ofMagnitude small]
  cases sign with
  | true => simp
  | false => simpa using small

theorem orderKey_ofMagnitude (small : m < twoTo 63) :
    (ofMagnitude sign m).orderKey = if sign then -(m : Int) - 1 else m := by
  rw [orderKey, magnitude_ofMagnitude small, negative_ofMagnitude small]

end OfMagnitude

theorem le_divNearest (n d : Nat) : n / d ≤ divNearest n d := by
  simp only [divNearest]
  split
  · exact Nat.le_refl _
  · split <;> omega

theorem divNearest_le (n d : Nat) : divNearest n d ≤ n / d + 1 := by
  simp only [divNearest]
  split
  · exact Nat.le_succ _
  · split <;> omega

theorem divNearest_mono {a b : Nat} (below : a ≤ b) (d : Nat) : divNearest a d ≤ divNearest b d := by
  rcases Nat.lt_or_eq_of_le (Nat.div_le_div_right (c := d) below) with apart | same
  · exact Nat.le_trans (divNearest_le a d) (Nat.le_trans apart (le_divNearest b d))
  · have remainders : a % d ≤ b % d := by
      have first := Nat.div_add_mod a d
      have second := Nat.div_add_mod b d
      rw [same] at first
      omega
    simp only [divNearest, same]
    generalize a % d = r at *
    generalize b % d = s at *
    grind

theorem twoTo_add (m n : Nat) : twoTo (m + n) = twoTo m * twoTo n := Nat.pow_add 2 m n

theorem twoTo_pos (n : Nat) : 0 < twoTo n := Nat.two_pow_pos n

/-- The exponent of a whole number of units. -/
def unitOf (n : Nat) : Nat := n.log2 - 52

/-- The magnitude of a whole number of units, where the exponent has no upper bound. -/
def roundedMagnitude (n : Nat) : Nat := unitOf n * twoTo 52 + divNearest n (twoTo (unitOf n))

theorem unitOf_mono {a b : Nat} (below : a ≤ b) : unitOf a ≤ unitOf b := by
  by_cases zero : a = 0
  · simp [unitOf, zero]
  · have reached : twoTo a.log2 ≤ b := Nat.le_trans (Nat.log2_self_le zero) below
    exact Nat.sub_le_sub_right ((Nat.le_log2 (by omega)).mpr reached) 52

theorem div_unit_lt (n : Nat) : n / twoTo (unitOf n) < twoTo 53 := by
  rw [Nat.div_lt_iff_lt_mul (twoTo_pos _), ← twoTo_add]
  refine Nat.lt_of_lt_of_le Nat.lt_log2_self (Nat.pow_le_pow_right (by decide) ?_)
  simp only [unitOf]
  omega

theorem le_div_unit {n : Nat} (above : 0 < unitOf n) : twoTo 52 ≤ n / twoTo (unitOf n) := by
  rw [unitOf] at above
  rw [Nat.le_div_iff_mul_le (twoTo_pos _), ← twoTo_add, unitOf, Nat.add_sub_cancel' (by omega)]
  exact Nat.log2_self_le fun zero => by simp [zero] at above

/-- In one binade quotients keep their order, and each binade ends where the next one begins. -/
theorem roundedMagnitude_mono {a b : Nat} (below : a ≤ b) :
    roundedMagnitude a ≤ roundedMagnitude b := by
  rcases Nat.lt_or_eq_of_le (unitOf_mono below) with apart | same
  · have top : divNearest a (twoTo (unitOf a)) ≤ twoTo 53 :=
      Nat.le_trans (divNearest_le _ _) (div_unit_lt a)
    have bottom : twoTo 52 ≤ divNearest b (twoTo (unitOf b)) :=
      Nat.le_trans (le_div_unit (Nat.zero_lt_of_lt apart)) (le_divNearest _ _)
    have doubled : twoTo 53 = twoTo 52 + twoTo 52 := rfl
    calc roundedMagnitude a
        ≤ unitOf a * twoTo 52 + (twoTo 52 + twoTo 52) := Nat.add_le_add_left (doubled ▸ top) _
      _ = (unitOf a + 1) * twoTo 52 + twoTo 52 := by rw [Nat.succ_mul, Nat.add_assoc]
      _ ≤ unitOf b * twoTo 52 + divNearest b (twoTo (unitOf b)) :=
          Nat.add_le_add (Nat.mul_le_mul_right _ apart) bottom
  · rw [roundedMagnitude, roundedMagnitude, same]
    exact Nat.add_le_add_left (divNearest_mono below _) _

/-- The magnitude of a rounded integer. -/
def magnitudeOf (i : Int) : Nat :=
  min (roundedMagnitude (i * twoTo 1074).natAbs) infinityMagnitude

theorem magnitudeOf_mono {i j : Int} (below : i.natAbs ≤ j.natAbs) :
    magnitudeOf i ≤ magnitudeOf j := by
  have scaled : (i * twoTo 1074).natAbs ≤ (j * twoTo 1074).natAbs := by
    rw [Int.natAbs_mul, Int.natAbs_mul]
    exact Nat.mul_le_mul_right _ below
  have rounded := roundedMagnitude_mono scaled
  simp only [magnitudeOf]
  omega

theorem ofInt_eq (i : Int) : ofInt i = ofMagnitude (decide (i < 0)) (magnitudeOf i) := by
  have sign : i * twoTo 1074 < 0 ↔ i < 0 := by
    have scaled := Int.mul_lt_mul_right (a := (twoTo 1074 : Int)) (b := i) (c := 0)
      (Int.natCast_pos.mpr (twoTo_pos 1074))
    rwa [Int.zero_mul] at scaled
  simp only [ofInt, roundInt, round, magnitudeOf, roundedMagnitude, unitOf, Nat.div_one,
    Nat.one_mul, sign]

theorem magnitudeOf_lt (i : Int) : magnitudeOf i < twoTo 63 :=
  Nat.lt_of_le_of_lt (Nat.min_le_right _ _) (by decide)

theorem orderKey_ofInt (i : Int) :
    (ofInt i).orderKey = if i < 0 then -(magnitudeOf i : Int) - 1 else magnitudeOf i := by
  rw [ofInt_eq, orderKey_ofMagnitude (magnitudeOf_lt i)]
  simp only [decide_eq_true_eq]

theorem orderKey_ofInt_mono {i j : Int} (below : i ≤ j) :
    (ofInt i).orderKey ≤ (ofInt j).orderKey := by
  rw [orderKey_ofInt, orderKey_ofInt]
  split <;> split
  · have magnitudes := magnitudeOf_mono (i := j) (j := i) (by omega)
    omega
  · omega
  · omega
  · have magnitudes := magnitudeOf_mono (i := i) (j := j) (by omega)
    omega

end PropertyGraph.Binary64
