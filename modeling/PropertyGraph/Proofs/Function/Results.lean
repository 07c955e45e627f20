import PropertyGraph.Function.Apply

/-!
Outcomes of functions. A function that is given as many operands as it takes fails for what they are
only. Results are truth values, numbers and texts, or lists put together from the operands; none is
null, since the unknown text stands for it. The connectives and the negation say true where
three-valued logic does.
-/

namespace PropertyGraph

/-- A truth value, a number or a text. -/
def Value.isAtom : Value → Bool
  | .bool _ | .int _ | .float _ | .string _ => true
  | _ => false

namespace Function

/-- The function was given what it is made for, if not of the right types. -/
def Fault.isOrdinary : Fault → Bool
  | .notAPair _ _ => false
  | _ => true

variable {f : Function} {v w : Value} {fault : Fault}

theorem applyUnary_ordinary (failed : applyUnary f v = .error fault) :
    fault.isOrdinary = true := by
  unfold applyUnary at failed
  dsimp only at failed
  repeat' split at failed
  all_goals
    cases failed
  rfl

theorem connective_ordinary {decisive : Bool} (failed : connective f decisive v w = .error fault) :
    fault.isOrdinary = true := by
  have truth {v : Value} {fault : Fault} (failed : connective.truth f v = .error fault) :
      fault.isOrdinary = true := by
    unfold connective.truth at failed
    split at failed
    · cases failed
    · split at failed <;> cases failed
      rfl
  unfold connective at failed
  cases first : connective.truth f v with
  | error other =>
      rw [first] at failed
      cases failed
      exact truth first
  | ok a =>
      cases second : connective.truth f w with
      | error other =>
          simp only [first, second, bind, Except.bind, pure, Except.pure] at failed
          split at failed <;> cases failed
          exact truth second
      | ok c =>
          simp only [first, second, bind, Except.bind, pure, Except.pure] at failed
          repeat' split at failed
          all_goals cases failed

theorem arithmetic_ordinary {onIntegers : Int → Int → Option Int64}
    {onFloats : Binary64 → Binary64 → Binary64}
    (failed : arithmetic f onIntegers onFloats v w = .error fault) : fault.isOrdinary = true := by
  unfold arithmetic at failed
  split at failed <;> split at failed <;> cases failed <;> rfl

theorem add_ordinary (failed : add v w = .error fault) : fault.isOrdinary = true := by
  unfold add at failed
  split at failed
  case h_5 => exact arithmetic_ordinary failed
  all_goals cases failed

theorem applyBinary_ordinary (pairs : f.isUnary = false) (apart : f ≠ .and ∧ f ≠ .or)
    (failed : applyBinary f v w = .error fault) : fault.isOrdinary = true := by
  cases f with
  | plus => exact add_ordinary failed
  | minus | multiply =>
      rw [applyBinary] at failed
      exact arithmetic_ordinary failed
  | divide =>
      rw [applyBinary] at failed
      split at failed
      · cases failed
        rfl
      · exact arithmetic_ordinary failed
  | modulo =>
      rw [applyBinary] at failed
      split at failed
      · cases failed
        rfl
      · exact arithmetic_ordinary failed
  | xor =>
      simp only [applyBinary] at failed
      split at failed <;> cases failed <;> rfl
  | and => exact absurd rfl apart.1
  | or => exact absurd rfl apart.2
  | toString | toInteger | toFloat | toBoolean | size | not => cases pairs
  | _ => cases failed

theorem apply_unary_ordinary (unary : f.isUnary = true) (failed : f.apply v = .error fault) :
    fault.isOrdinary = true := by
  unfold apply at failed
  rw [if_pos unary] at failed
  split at failed
  · cases failed
  · exact applyUnary_ordinary failed

theorem apply_pair_ordinary (pairs : f.isUnary = false)
    (failed : f.apply (.list [v, w]) = .error fault) : fault.isOrdinary = true := by
  unfold apply at failed
  simp only [pairs, Bool.false_eq_true, if_false] at failed
  split at failed
  · exact connective_ordinary failed
  · exact connective_ordinary failed
  · next noAnd noOr =>
      split at failed
      · cases failed
      · exact applyBinary_ordinary pairs ⟨noAnd, noOr⟩ failed

variable {result : Value}

theorem truth_iff {b : Bool} : connective.truth f v = .ok (some b) ↔ v = .bool b := by
  constructor
  · intro found
    unfold connective.truth at found
    split at found
    · cases found
      rfl
    · split at found <;> cases found
  · rintro rfl
    rfl

/-- One decisive operand decides; otherwise both operands must be the other truth value. -/
theorem connective_result {decisive : Bool} (applied : connective f decisive v w = .ok result) :
    (result = .bool decisive ↔ v = .bool decisive ∨ w = .bool decisive) ∧
      (result = .bool (!decisive) ↔ v = .bool (!decisive) ∧ w = .bool (!decisive)) := by
  simp only [← truth_iff (f := f) (v := v), ← truth_iff (f := f) (v := w)]
  unfold connective at applied
  generalize connective.truth f v = first at applied ⊢
  generalize connective.truth f w = second at applied ⊢
  rcases first with fault | _ | a
  · cases applied
  · rcases second with fault | _ | c
    · cases applied
    · cases applied
      simp [Value.unknown]
    · cases decisive <;> cases c <;> cases applied <;> simp [Value.unknown]
  · rcases second with fault | _ | c
    · cases decisive <;> cases a <;> cases applied <;> simp
    · cases decisive <;> cases a <;> cases applied <;> simp [Value.unknown]
    · cases decisive <;> cases a <;> cases c <;> cases applied <;> simp

theorem and_result (applied : Function.and.apply (.list [v, w]) = .ok result) :
    result = .bool true ↔ v = .bool true ∧ w = .bool true :=
  (connective_result applied).2

theorem or_result (applied : Function.or.apply (.list [v, w]) = .ok result) :
    result = .bool true ↔ v = .bool true ∨ w = .bool true :=
  (connective_result applied).1

theorem not_result (applied : Function.not.apply v = .ok result) :
    result = .bool true ↔ v = .bool false := by
  cases v with
  | bool b =>
      cases applied
      cases b <;> simp
  | null =>
      cases applied
      simp [Value.unknown]
  | string s =>
      simp only [apply, isUnary, if_true] at applied
      split at applied <;> cases applied
      simp [Value.unknown]
  | _ => cases applied

theorem arithmetic_atom {onIntegers : Int → Int → Option Int64}
    {onFloats : Binary64 → Binary64 → Binary64}
    (applied : arithmetic f onIntegers onFloats v w = .ok result) : result.isAtom = true := by
  unfold arithmetic at applied
  split at applied <;> split at applied <;> cases applied <;> rfl

theorem add_result (applied : add v w = .ok result) : result.isAtom = true ∨
    ∃ items, v = .list items ∧ (result = .list (items ++ [w]) ∨
      ∃ others, w = .list others ∧ result = .list (items ++ others)) := by
  unfold add at applied
  split at applied
  case h_3 items others =>
    cases applied
    exact .inr ⟨items, rfl, .inr ⟨others, rfl, rfl⟩⟩
  case h_4 items _ _ =>
    cases applied
    exact .inr ⟨items, rfl, .inl rfl⟩
  case h_5 => exact .inl (arithmetic_atom applied)
  all_goals
    cases applied
    exact .inl rfl

theorem ordering_atom (accept : Ordering → Bool) (v w : Value) :
    (ordering accept v w).isAtom = true := by
  unfold ordering
  split <;> rfl

theorem connective_atom {decisive : Bool} (applied : connective f decisive v w = .ok result) :
    result.isAtom = true := by
  unfold connective at applied
  generalize connective.truth f v = first at applied
  generalize connective.truth f w = second at applied
  rcases first with fault | a
  · cases applied
  · rcases second with fault | c
    · cases decisive <;> rcases a with _ | _ | _ <;> cases applied <;> rfl
    · cases decisive <;> rcases a with _ | _ | _ <;> rcases c with _ | _ | _ <;> cases applied <;>
        rfl

theorem applyBinary_result (applied : applyBinary f v w = .ok result) :
    result.isAtom = true ∨ add v w = .ok result := by
  cases f with
  | plus => exact .inr applied
  | minus | multiply =>
      rw [applyBinary] at applied
      exact .inl (arithmetic_atom applied)
  | divide | modulo =>
      rw [applyBinary] at applied
      split at applied
      · cases applied
      · exact .inl (arithmetic_atom applied)
  | xor =>
      simp only [applyBinary] at applied
      split at applied <;> cases applied
      exact .inl rfl
  | less | lessOrEqual | greater | greaterOrEqual =>
      cases applied
      exact .inl (ordering_atom _ _ _)
  | equals | notEquals =>
      cases applied
      exact .inl rfl
  | _ => cases applied

theorem applyUnary_atom (applied : applyUnary f v = .ok result) : result.isAtom = true := by
  unfold applyUnary at applied
  dsimp only at applied
  repeat' split at applied
  all_goals cases applied <;> rfl

theorem apply_result (applied : f.apply v = .ok result) : result.isAtom = true ∨
    ∃ left right, v = .list [left, right] ∧ add left right = .ok result := by
  unfold apply at applied
  split at applied
  · split at applied
    · cases applied
      exact .inl rfl
    · exact .inl (applyUnary_atom applied)
  · split at applied
    · split at applied
      · exact .inl (connective_atom applied)
      · exact .inl (connective_atom applied)
      · split at applied
        · cases applied
          exact .inl rfl
        · exact (applyBinary_result applied).imp_right fun added => ⟨_, _, rfl, added⟩
    · cases applied

theorem apply_ne_null (f : Function) (v : Value) : f.apply v ≠ .ok .null := by
  intro applied
  obtain atom | ⟨left, right, _, added⟩ := apply_result applied
  · cases atom
  · obtain atom | ⟨items, _, same | ⟨others, _, same⟩⟩ := add_result added
    · cases atom
    · cases same
    · cases same

end Function

end PropertyGraph
