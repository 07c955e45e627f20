import Mathlib.Algebra.BigOperators.Group.List.Basic
import PropertyGraph.Proofs.Run.Expansion
import PropertyGraph.Proofs.Run.Groups

/-!
Sums of integers. A sum is taken from the first to the last value and stays an integer as long as
each sum on the way fits 64 bits; that its end would fit is not enough, and so the order matters.
In every order it is an integer as soon as what is above zero and what is below zero fit each on
their own, and only then: one comes before the other in some order.
-/

namespace PropertyGraph

open Exec

namespace Reduce

/-- It fits 64 bits with a sign. -/
def Fits (i : Int) : Prop := -(twoTo 63 : Int) ≤ i ∧ i < twoTo 63

instance : DecidablePred Fits := fun _ => instDecidableAnd

def exactSum (ints : List Int64) : Int := (ints.map Int64.toInt).sum

/-- The sum of what is above zero. -/
def gains (ints : List Int64) : Int := exactSum (ints.filter fun i => 0 < i.toInt)

/-- The sum of what is below zero. -/
def losses (ints : List Int64) : Int := exactSum (ints.filter fun i => i.toInt < 0)

/-- What the values come to fits wherever one stops. -/
def RunningSumsFit (ints : List Int64) : Prop := ∀ front, front <+: ints → Fits (exactSum front)

variable {ints other front : List Int64}

theorem exactSum_cons (i : Int64) (rest : List Int64) :
    exactSum (i :: rest) = i.toInt + exactSum rest :=
  List.sum_cons

theorem exactSum_perm (same : other.Perm ints) : exactSum other = exactSum ints :=
  (same.map Int64.toInt).sum_eq

theorem int64?_fits {i : Int} : (∃ n, int64? i = some n) ↔ Fits i := by
  unfold int64?
  split
  · next within => exact iff_of_true ⟨_, rfl⟩ within
  · next beyond => exact iff_of_false (by rintro ⟨_, ⟨⟩⟩) beyond

theorem prefixes_cons {i : Int64} {rest : List Int64} {start : Int} :
    (∀ front, front <+: i :: rest → Fits (start + exactSum front)) ↔
      Fits start ∧ ∀ front, front <+: rest → Fits (start + i.toInt + exactSum front) := by
  have later (front : List Int64) :
      start + exactSum (i :: front) = start + i.toInt + exactSum front := by
    rw [exactSum_cons, Int.add_assoc]
  constructor
  · intro all
    refine ⟨?_, fun front within => later front ▸ all _ (List.cons_prefix_cons.mpr ⟨rfl, within⟩)⟩
    simpa [exactSum] using all [] List.nil_prefix
  · rintro ⟨here, there⟩ front within
    cases front with
    | nil => simpa [exactSum] using here
    | cons j front =>
        obtain ⟨rfl, shorter⟩ := List.cons_prefix_cons.mp within
        exact later front ▸ there front shorter

/-- From a start that fits, the sum is found where all sums on the way fit. -/
theorem integerSum?_isSome (ints : List Int64) (start : Int64) (fits : Fits start.toInt) :
    (∃ total, integerSum? start (ints.map .int) = some total) ↔
      ∀ front, front <+: ints → Fits (start.toInt + exactSum front) := by
  induction ints generalizing start with
  | nil =>
      refine ⟨fun _ front within => ?_, fun _ => ⟨start, rfl⟩⟩
      obtain rfl := List.prefix_nil.mp within
      simpa [exactSum] using fits
  | cons i rest ih =>
      rw [prefixes_cons, List.map_cons, integerSum?]
      have head : Fits (start.toInt + i.toInt) ↔ ∃ n, int64? (start.toInt + i.toInt) = some n :=
        int64?_fits.symm
      cases next : int64? (start.toInt + i.toInt) with
      | none =>
          refine iff_of_false (by rintro ⟨_, ⟨⟩⟩) fun all => ?_
          have within : Fits (start.toInt + i.toInt + exactSum []) := all.2 [] List.nil_prefix
          obtain ⟨n, found⟩ := head.mp (by simpa [exactSum] using within)
          rw [next] at found
          cases found
      | some n =>
          have reached := int64?_toInt next
          rw [ih n (reached ▸ head.mpr ⟨n, next⟩), reached]
          exact (and_iff_right fits).symm

theorem runningSumsFit_iff :
    RunningSumsFit ints ↔ ∃ total, integerSum? 0 (ints.map .int) = some total := by
  rw [integerSum?_isSome ints 0 ⟨by decide, by decide⟩]
  simp only [Int64.toInt_zero, Int.zero_add]
  rfl

/-- A sum of integers is their exact sum if all sums on the way fit, or else a float. -/
theorem sum_ints (ints : List Int64) :
    (RunningSumsFit ints →
      ∃ total : Int64, sum (ints.map .int) = .int total ∧ total.toInt = exactSum ints) ∧
    (¬RunningSumsFit ints → sum (ints.map .int) = .float (floatSum (ints.map .int))) := by
  rw [runningSumsFit_iff]
  constructor
  · rintro ⟨total, same⟩
    obtain ⟨others, sameInts, exact_⟩ := integerSum?_exact same
    obtain rfl : ints = others := List.map_injective_iff.mpr (fun _ _ => Value.int.inj) sameInts
    refine ⟨total, by rw [sum, same], ?_⟩
    rwa [Int64.toInt_zero, Int.zero_add] at exact_
  · intro unfit
    have none_ : integerSum? 0 (ints.map .int) = none :=
      Option.eq_none_iff_forall_not_mem.mpr fun total same => unfit ⟨total, same⟩
    rw [sum, none_]

/-- Part of some values comes to no more than all that is above zero, and to no less than all that
is below zero. -/
theorem sublist_between (part : front.Sublist ints) :
    losses ints ≤ exactSum front ∧ exactSum front ≤ gains ints := by
  induction part with
  | slnil => exact ⟨Int.le_refl _, Int.le_refl _⟩
  | cons i part ih | cons_cons i part ih =>
      simp only [losses, gains, List.filter_cons, exactSum_cons] at ih ⊢
      split <;> split <;> simp only [decide_eq_true_eq, exactSum_cons] at * <;> omega

theorem gains_perm (same : other.Perm ints) : gains other = gains ints :=
  exactSum_perm (same.filter _)

theorem losses_perm (same : other.Perm ints) : losses other = losses ints :=
  exactSum_perm (same.filter _)

theorem fits_of_every_order (every : ∀ other, other.Perm ints → RunningSumsFit other)
    (wanted : Int64 → Bool) : Fits (exactSum (ints.filter wanted)) :=
  every _ (List.filter_append_perm wanted ints) _ (List.prefix_append _ _)

theorem every_order_fits :
    (∀ other, other.Perm ints → RunningSumsFit other) ↔ Fits (gains ints) ∧ Fits (losses ints) := by
  constructor
  · exact fun every => ⟨fits_of_every_order every _, fits_of_every_order every _⟩
  · rintro ⟨above, below⟩ other same front within
    obtain ⟨least, most⟩ := sublist_between within.sublist
    rw [losses_perm same] at least
    rw [gains_perm same] at most
    unfold Fits at above below ⊢
    omega

theorem reduce?_ints (ints : List Int64) :
    reduce? .sum (ints.map .int) = .ok (some (sum (ints.map .int))) := by
  have numbers : (ints.map Value.int).find? (fun v => !v.isNumber) = none := by
    rw [List.find?_eq_none]
    rintro _ member
    obtain ⟨i, _, rfl⟩ := List.mem_map.mp member
    exact nofun
  rw [reduce?, numbers]
  · rfl
  · nofun
  · nofun

/-- What the step comes to over integers: those that its traversers hold, or those in the list that
one traverser holds. -/
structure Sums (engine : Engine) (world : World) (ints : List Int64) (v : Value) : Prop where
  global : ∀ stream, objects stream = ints.map .int →
    Gives world (Plan.runStage engine (.bare .sum []) stream) (.ok [.start v])
  local_ : ∀ t : Traverser, t.object = .list (ints.map .int) →
    Gives world (Plan.runStage engine (.bare .sum [.scope .local_]) [t]) (.ok [t.split v])

variable {engine : Engine} {world : World}

theorem sums_sum (ints : List Int64) : Sums engine world ints (sum (ints.map .int)) where
  global stream integers := by
    change Gives world (liftFault id (reduce? .sum (objects stream)) >>= _) _
    rw [integers, reduce?_ints]
    rfl
  local_ t list := by
    change Gives world (forEach (fun t : Traverser =>
      liftFault id (reduce? .sum (Application.reduceItems t.object)) >>= _) [t]) _
    rw [forEach, list, Application.reduceItems, reduce?_ints]
    rfl

theorem Sums.eq_sum {v : Value} (sums : Sums engine world ints v) : v = sum (ints.map .int) := by
  have listed : objects (ints.map fun i => .start (.int i)) = ints.map .int := by
    simp [objects, Traverser.start, Function.comp_def, Traverser.object]
  cases (sums.global _ listed).symm.trans ((sums_sum ints).global _ listed)
  rfl

/-- A sum of integers stays exact while the sums on the way fit, and is a float where one of them
does not. It is exact in every order where gains and losses fit each on their own, and only there. -/
theorem integer_sums_are_exact_while_running_sums_fit (engine : Engine) (world : World)
    (ints : List Int64) :
    (RunningSumsFit ints →
      ∃ total : Int64, Sums engine world ints (.int total) ∧ total.toInt = exactSum ints) ∧
    (¬RunningSumsFit ints → Sums engine world ints (.float (floatSum (ints.map .int)))) ∧
    ((∀ other, other.Perm ints →
        ∃ total : Int64, Sums engine world other (.int total) ∧ total.toInt = exactSum ints) ↔
      Fits (gains ints) ∧ Fits (losses ints)) := by
  obtain ⟨fit, unfit⟩ := sum_ints ints
  refine ⟨fun fits => ?_, fun unfits => unfit unfits ▸ sums_sum ints, ?_⟩
  · obtain ⟨total, same, exact_⟩ := fit fits
    exact ⟨total, same ▸ sums_sum ints, exact_⟩
  rw [← every_order_fits]
  refine forall_congr' fun other => forall_congr' fun order => ?_
  obtain ⟨fit, unfit⟩ := sum_ints other
  constructor
  · rintro ⟨total, sums, _⟩
    by_contra unfits
    have same := sums.eq_sum
    rw [unfit unfits] at same
    cases same
  · intro fits
    obtain ⟨total, same, exact_⟩ := fit fits
    exact ⟨total, same ▸ sums_sum other, exact_.trans (exactSum_perm order)⟩

/-- In this order all sums on the way fit. -/
theorem the_sum_of_the_greatest_integer_less_one_and_one :
    Sums (.standard 1) ⟨.empty, []⟩ [Int64.maxValue, -1, 1] (.int Int64.maxValue) := by
  have fit : RunningSumsFit [Int64.maxValue, -1, 1] := runningSumsFit_iff.mpr ⟨_, rfl⟩
  obtain ⟨total, sums, exact_⟩ :=
    (integer_sums_are_exact_while_running_sums_fit (.standard 1) _ _).1 fit
  obtain rfl : total = Int64.maxValue := Int64.toInt_inj.mp exact_
  exact sums

/-- In this order one does not, though the sum of all does. -/
theorem the_sum_of_the_greatest_integer_one_and_less_one :
    Fits (exactSum [Int64.maxValue, 1, -1]) ∧
      ∀ engine world, ¬∃ total : Int64, Sums engine world [Int64.maxValue, 1, -1] (.int total) := by
  refine ⟨by decide, fun engine world ⟨total, sums⟩ => ?_⟩
  have overflows : ¬RunningSumsFit [Int64.maxValue, 1, -1] := fun fits =>
    absurd (fits [Int64.maxValue, 1] ⟨[-1], rfl⟩) (by decide)
  have same := sums.eq_sum
  rw [(sum_ints _).2 overflows] at same
  cases same

end Reduce

end PropertyGraph
