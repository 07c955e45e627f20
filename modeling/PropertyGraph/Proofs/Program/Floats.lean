import PropertyGraph.Program.Json
import PropertyGraph.Proofs.Builder.Stages
import PropertyGraph.Proofs.Json.Reading

/-!
Floating-point numbers in JSON. They are written with the fewest digits that tell them apart and
read with a scaling that may be off in the last place, so that not every number survives. Whether
one does is a matter of its own text: a number stops at a delimiter.
-/

namespace PropertyGraph

open Json Json.Reader

/-- Whether the number is read from the text that it is written as. -/
def Binary64.readsBack (x : Binary64) : Bool :=
  (Json.Reader.float.run (Json.float x).chars).toOption == some (x, [])

namespace Json.Reader

variable {α β : Type}

/-! ### Stopping at a delimiter -/

/-- What a reader takes from a text, and what it leaves, are the same in front of a delimiter. -/
def Stops (r : Reader α) : Prop :=
  ∀ input left rest a, Ends rest → r.run input = .ok (a, left) →
    r.run (input ++ rest) = .ok (a, left ++ rest)

namespace Stops

variable {r : Reader α} {next : α → Reader β}

theorem pure (a : α) : Stops (Pure.pure a) := by
  intro input left rest b _ read
  cases read
  rfl

theorem throw (fault : Fault) : Stops (MonadExcept.throw fault : Reader α) :=
  fun _ _ _ _ _ read => nomatch read

theorem refused (fault : Fault) (next : α → Reader β) :
    Stops (MonadExcept.throw fault >>= next) :=
  fun _ _ _ _ _ read => nomatch read

theorem bind (first : Stops r) (later : ∀ a, Stops (next a)) : Stops (r >>= next) := by
  intro input left rest b ends read
  rw [StateT.run_bind] at read
  obtain ⟨⟨a, middle⟩, one, two⟩ := bind_eq_ok.mp read
  exact (run_next (first _ _ _ _ ends one)).trans (later a _ _ _ _ ends two)

theorem map (f : α → β) (first : Stops r) : Stops (f <$> r) := by
  rw [map_eq_pure_bind]
  exact first.bind fun a => .pure _

theorem of_except {result : Except Fault α} : Stops (liftM result : Reader α) := by
  cases result with
  | ok a => exact .pure a
  | error fault => exact .throw fault

end Stops

theorem digits_stops : Stops digits := by
  intro input left rest found ends read
  cases read
  have other : ∀ c ∈ rest.head?, isDigit c = false := ends.refuses isDigit (by decide)
  have none : rest.takeWhile isDigit = [] ∧ rest.dropWhile isDigit = rest := by
    cases rest with
    | nil => exact ⟨rfl, rfl⟩
    | cons c rest => simp [List.takeWhile, List.dropWhile, other c rfl]
  induction input with
  | nil => simp [digits, StateT.run, none]
  | cons c input ih =>
      by_cases digit : isDigit c = true
      · simp only [digits, StateT.run, List.cons_append, List.takeWhile_cons_of_pos digit,
          List.dropWhile_cons_of_pos digit] at ih ⊢
        simp_all
      · simp [digits, StateT.run, List.takeWhile_cons_of_neg digit,
          List.dropWhile_cons_of_neg digit]

theorem someDigits_stops : Stops someDigits :=
  digits_stops.bind fun found => by
    split
    · exact .throw _
    · exact .pure _

theorem optionalChar_stops {accept : Char → Bool}
    (none : accept ',' = false ∧ accept ']' = false ∧ accept '}' = false) :
    Stops (optionalChar accept) := by
  intro input left rest found ends read
  cases input with
  | nil =>
      cases read
      exact optionalChar_run ends none
  | cons c input =>
      by_cases accepted : accept c = true
      · simp only [optionalChar, StateT.run, accepted, if_true] at read
        cases read
        simp [optionalChar, StateT.run, accepted]
      · simp only [optionalChar, StateT.run, accepted] at read
        cases read
        simp [optionalChar, StateT.run, accepted]

theorem numeral_stops (negative : Bool) : Stops (numeral negative) := by
  refine someDigits_stops.bind fun whole => ?_
  dsimp only
  split
  · exact .refused _ _
  · refine (optionalChar_stops (by decide)).bind fun point => ?_
    -- with a fraction and without one, an exponent may follow
    cases point
    all_goals
      refine Stops.bind ?_ fun fraction => (optionalChar_stops (by decide)).bind fun mark => ?_
    case none.refine_1 => exact .pure _
    case some.refine_1 => exact someDigits_stops.map _
    all_goals
      cases mark with
      | none => exact .pure _
      | some _ =>
          exact (optionalChar_stops (by decide)).bind fun sign =>
            someDigits_stops.bind fun found => .pure _

theorem number_stops (negative : Bool) : Stops (number negative) :=
  (numeral_stops negative).bind fun _ => .of_except

end Json.Reader

/-! ### The text of a number -/

theorem Decimal.layDigits_head (layout : Layout) (d : Digits) :
    ∃ c more, layDigits layout d = c :: more ∧ isDigit c = true := by
  obtain ⟨c, more, first⟩ := List.exists_cons_of_ne_nil (digitChars_ne_nil d.digits)
  have digit : isDigit c = true := digitChars_isDigit d.digits c (first ▸ List.mem_cons_self)
  unfold layDigits
  simp only [first]
  split
  · split
    · exact ⟨_, _, rfl, by decide⟩
    · next positive =>
      obtain ⟨places, known⟩ : ∃ places, (d.exponent + ((c :: more).length : Nat)).toNat =
          places + 1 := ⟨(d.exponent + ((c :: more).length : Nat)).toNat - 1, by omega⟩
      split
      · exact ⟨_, _, rfl, digit⟩
      · rw [known]
        exact ⟨_, _, rfl, digit⟩
  · cases more <;> exact ⟨_, _, rfl, digit⟩

namespace Binary64

variable {x : Binary64}

theorem chars_head (finite : x.isFinite = true) :
    ∃ c more, (Json.float x).chars = c :: more ∧ (c = '-' ∨ isDigit c = true) := by
  have bounded : x.magnitude < infinityMagnitude := of_decide_eq_true finite
  have number : x.isNaN = false := decide_eq_false (by omega)
  have other : x.isInfinite = false := beq_false_of_ne (by omega)
  simp only [chars, floatChars, finite, if_true, Decimal.render, number, other,
    Bool.false_eq_true, if_false, String.toList_ofList]
  split
  · exact ⟨_, _, rfl, .inl rfl⟩
  · split
    · exact ⟨_, _, rfl, .inr (by decide)⟩
    · obtain ⟨c, more, first, digit⟩ := Decimal.layDigits_head floatLayout
        (Decimal.shortest floatLayout.tieUp x)
      exact ⟨c, more, first, .inr digit⟩

theorem readsBack_iff : x.readsBack = true ↔
    Reader.float.run (Json.float x).chars = .ok (x, []) := by
  unfold readsBack
  cases Reader.float.run (Json.float x).chars with
  | error fault => simp [Except.toOption]
  | ok found => simp [Except.toOption]

theorem isFinite_of_readsBack (back : x.readsBack = true) : x.isFinite = true := by
  have read := readsBack_iff.mp back
  by_contra other
  rw [chars, floatChars, if_neg other] at read
  cases read

end Binary64

theorem expectNumber_run {c : Char} {more : List Char} (begins : c = '-' ∨ isDigit c = true) :
    Reader.expectNumber.run (c :: more) =
      if c = '-' then (Reader.number true).run more else (Reader.number false).run (c :: more) := by
  rcases begins with rfl | digit
  · rfl
  · obtain ⟨noSpace, _, noSign⟩ := isDigit_plain digit
    rw [expectNumber, run_next (peek_run noSpace _)]
    simp [noSign, digit]

theorem float_takes {x : Binary64} (back : x.readsBack = true) :
    Takes Reader.float (.float x) x := by
  have read := Binary64.readsBack_iff.mp back
  obtain ⟨c, more, written, begins⟩ := Binary64.chars_head (Binary64.isFinite_of_readsBack back)
  rw [written] at read
  refine ⟨⟨c, more, written, ?_⟩, fun rest ends => ?_⟩
  · rcases begins with rfl | digit
    · decide
    · obtain ⟨noSpace, open_, -⟩ := isDigit_plain digit
      exact ⟨noSpace, open_⟩
  · rw [Reader.float, StateT.run_bind] at read
    obtain ⟨⟨number, left⟩, found, same⟩ := bind_eq_ok.mp read
    have further : expectNumber.run (c :: more ++ rest) = .ok (number, left ++ rest) := by
      rw [expectNumber_run begins] at found
      rw [List.cons_append, expectNumber_run begins]
      split at found
      · next sign =>
        rw [if_pos sign]
        exact number_stops true _ _ _ _ ends found
      · next noSign =>
        rw [if_neg noSign]
        exact number_stops false _ _ _ _ ends found
    rw [written]
    refine (run_next further).trans ?_
    cases number with
    | int i =>
        obtain ⟨rfl, rfl⟩ := Prod.mk.inj (Except.ok.inj same)
        rfl
    | float y =>
        obtain ⟨rfl, rfl⟩ := Prod.mk.inj (Except.ok.inj same)
        rfl

end PropertyGraph
