import PropertyGraph.Proofs.Cypher.AsWritten

/-!
Negative integers. A sign is no part of a number; the number behind it is read first and then
negated, be it written with its digits or given by a parameter. So every integer is read from its
text but the least, the digits of which are too large without their sign, and every parameter but
the least integer is negated.
-/

namespace PropertyGraph

open Cypher

namespace Cypher

variable {source : Source} {nested : Parser Expression} {i : Int64} {n : Nat}

theorem Lacks.of_digits {words : List String} {marks : List Char}
    (letters : ∀ word ∈ words, word.toList.head?.any (!isDigit ·) = true)
    (apart : marks.any isDigit = false) : Lacks words marks (digitChars n) := by
  have spaced_ : Lacks words marks (' ' :: (digitChars n ++ [])) := .of_number n letters apart
  refine spaced_.of_skipped (.inr ?_)
  rw [(Visible.of_number n).dropBlanks_eq, List.append_nil]

namespace Spots

theorem digits (fits : n < twoTo 63) :
    Spots source (unary nested) (digitChars n) (.literal (.int (Int64.ofInt n))) [] := by
  have reads : ReadsAt nested 7 [digitChars n] (.literal (.int (Int64.ofInt n))) :=
    (ReadsAt.number fits).mono (by omega) (Nat.le_refl 8)
  have found : Spots source (unary nested) (spaced [digitChars n] ++ [])
      (.literal (.int (Int64.ofInt n))) [] := .of_parses reads.parses (.nil 7)
  have shown : dropBlanks (spaced [digitChars n] ++ []) = digitChars n := by
    rw [spaced_cons, spaced_nil, List.append_nil, (Visible.of_number n).dropBlanks_eq,
      List.append_nil]
  rw [← shown]
  exact found.behind

theorem integer (greater : i ≠ Int64.minValue) :
    Spots source (unary nested) (intChars i.toInt) (.literal (.int i)) [] := by
  have number : Spots source (unary nested) (digitChars i.toInt.natAbs)
      (.literal (.int (Int64.ofInt i.toInt.natAbs))) [] := .digits (Value.natAbs_fits greater)
  unfold intChars
  split
  · next negative =>
      rw [← Value.negated_natAbs negative]
      exact number.negated
  · next positive => rwa [Value.ofInt_natAbs positive] at number

theorem parameter {bytes : Nat} {parameters : Properties} {name : String} {token : List Char}
    {v : Value} (known : Dictionary.get? name parameters = some v) (spells : Spells token name) :
    Spots ⟨bytes, parameters⟩ (primary nested) ('$' :: token) (.literal v) [] := by
  have named : Spots ⟨bytes, parameters⟩ Cypher.name token name [] := by
    obtain ⟨c, more, rfl, first, second⟩ := spells.visible
    refine spells.finds rfl ?_
    rw [dropBlanks_visible first second, List.append_nil]
  have looked : Spots ⟨bytes, parameters⟩ Cypher.parameter token (.literal v) [] := by
    refine named.bind (of_read ?_)
    dsimp only
    rw [known]
    exact .pure _ []
  have absent : Lacks [] ['(', '[', '{'] ('$' :: token) := rfl
  refine noMark absent (by decide) (noMark absent (by decide) (noMark absent (by decide) ?_))
  exact mark (dropBlanks_visible rfl (by decide) token) looked

end Spots

theorem visible_intChars (k : Int) : Visible (intChars k) := by
  unfold intChars
  split
  · exact .of_head rfl (by decide) _
  · exact .of_number _

theorem finishes_intChars (k : Int) : Finishes [intChars k] := by
  have shown : ∀ c ∈ digitChars k.natAbs, Text.isBlank c = false := fun c member =>
    (isDigit_cases (digitChars_isDigit _ c member)).1
  unfold intChars
  split
  · exact .of_token (List.cons_ne_nil _ _) (List.forall_mem_cons.mpr ⟨rfl, shown⟩)
  · obtain ⟨c, more, same, _⟩ := digitChars_cases k.natAbs
    exact .of_token (same ▸ List.cons_ne_nil c more) shown

theorem lacks_intChars (k : Int) : Lacks ["NOT", "DISTINCT"] [] (intChars k) := by
  unfold intChars
  split
  · rfl
  · exact .of_digits (by decide) rfl

theorem parse_integer (greater : i ≠ Int64.minValue) (parameters : Properties) :
    Statement.parse ("RETURN " ++ intText i.toInt) parameters =
      .ok ⟨false, returning [] [⟨.literal (.int i), none, intText i.toInt⟩]⟩ := by
  have lacks := lacks_intChars i.toInt
  have all : Lacks ["DISTINCT"] [] (' ' :: intChars i.toInt) := by
    have inside : Lacks ["DISTINCT"] [] (intChars i.toInt) :=
      lacks.imp (by decide) (List.nil_subset _)
    exact inside
  refine parse_of_item (visible_intChars _) (finishes_intChars _) all fun bytes => ?_
  exact .expression (fun nested => .integer greater) (lacks.imp (by decide) (List.nil_subset _)) rfl

theorem parse_negated {parameters : Properties} {name : String} {token : List Char}
    (known : Dictionary.get? name parameters = some (.int i)) (spells : Spells token name) :
    Statement.parse ("RETURN " ++ String.ofList ('-' :: '$' :: token)) parameters =
      .ok ⟨false, returning []
        [⟨.literal (.int (-i)), none, String.ofList ('-' :: '$' :: token)⟩]⟩ := by
  have visible : Visible ('-' :: '$' :: token) := .of_head rfl (by decide) _
  have finishes : Finishes ['-' :: '$' :: token] := spells.finishes.prefixed ['-', '$']
  have unsigned : Lacks [] ['-', '+'] ('$' :: token) := rfl
  refine parse_of_item visible finishes rfl fun bytes => .expression (fun nested => ?_) rfl rfl
  exact (Spots.unsigned unsigned (.parameter known spells)).negated

end Cypher

/-- Every integer but the least is read from its text, and negated where a parameter gives it. -/
theorem Statement.negative_integers_are_exact {i : Int64} (greater : i ≠ Int64.minValue) :
    (∀ parameters, Statement.parse ("RETURN " ++ intText i.toInt) parameters =
      .ok ⟨false, returning [] [⟨.literal (.int i), none, intText i.toInt⟩]⟩) ∧
    ∀ parameters name token, Dictionary.get? name parameters = some (.int i) →
      Spells token name →
      ∃ n : Int64, n.toInt = -i.toInt ∧
        Statement.parse ("RETURN -$" ++ String.ofList token) parameters =
          .ok ⟨false, returning []
            [⟨.literal (.int n), none, "-$" ++ String.ofList token⟩]⟩ := by
  refine ⟨parse_integer greater, fun parameters name token known spells => ⟨-i, ?_, ?_⟩⟩
  · have fits := Value.natAbs_fits greater
    have power : twoTo 63 = 2 ^ 63 := rfl
    rw [Int64.toInt_neg]
    exact Int.bmod_eq_of_le (by omega) (by omega)
  · have marked : String.ofList ('-' :: '$' :: token) = "-$" ++ String.ofList token :=
      String.toList_inj.mp (by simp)
    have whole : "RETURN -$" ++ String.ofList token =
        "RETURN " ++ ("-$" ++ String.ofList token) := by
      rw [← String.append_assoc]
      rfl
    rw [whole, ← marked]
    exact parse_negated known spells

/-- The least integer but one, and the greatest as a parameter. -/
theorem Statement.least_integer_but_one_is_exact :
    Int64.minValue + 1 ≠ Int64.minValue ∧
      Statement.parse "RETURN -9223372036854775807" [] =
        .ok ⟨false, returning []
          [⟨.literal (.int (Int64.minValue + 1)), none, "-9223372036854775807"⟩]⟩ ∧
      ∃ n : Int64, n.toInt = 9223372036854775807 ∧
        Statement.parse "RETURN -$p" [("p", .int (Int64.minValue + 1))] =
          .ok ⟨false, returning [] [⟨.literal (.int n), none, "-$p"⟩]⟩ := by
  have greater : Int64.minValue + 1 ≠ Int64.minValue := by decide
  obtain ⟨written, given⟩ := Statement.negative_integers_are_exact greater
  have text : intText (Int64.minValue + 1).toInt = "-9223372036854775807" := by decide +kernel
  have first := written []
  rw [text] at first
  exact ⟨greater, first, given [("p", .int (Int64.minValue + 1))] "p" ['p'] (by rfl)
    (.bare "p" (by decide))⟩

/-- The digits of the least integer are read before its sign, and do not fit. -/
theorem Statement.least_integer_is_not_read :
    Statement.parse ("RETURN " ++ intText Int64.minValue.toInt) [] =
      .error (.invalidInteger "9223372036854775808") := by
  have text : "RETURN " ++ intText Int64.minValue.toInt = "RETURN -9223372036854775808" := by
    decide +kernel
  have checked : (match Statement.parse "RETURN -9223372036854775808" [] with
      | .error (.invalidInteger digits) => digits == "9223372036854775808"
      | _ => false) = true := by decide +kernel
  rw [text]
  split at checked
  · next digits found => rw [found, beq_iff_eq.mp checked]
  · cases checked

end PropertyGraph
