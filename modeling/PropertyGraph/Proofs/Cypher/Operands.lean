import PropertyGraph.Proofs.Cypher.Levels

/-!
Operands and operators. What is read at one level is read at all looser ones, and operators make of
their operands what they say.
-/

namespace PropertyGraph.Cypher

variable {nested operand : Parser Expression} {j k : Nat} {tokens others : List Token}
  {e left right : Expression}

/-- Words that no expression of a level begins with. -/
def barredWords (k : Nat) : List String := if k ≤ 3 then ["DISTINCT"] else ["DISTINCT", "NOT"]

/-- Marks that no expression of a level begins with. -/
def barredMarks (k : Nat) : List Char :=
  if k ≤ 7 then [')', ']', '}', '*'] else [')', ']', '}', '*', '-', '+']

/-- What an expression of some level may begin with. -/
structure Heads (k : Nat) (tokens : List Token) : Prop where
  begins : Begins tokens
  absent : ∀ rest, Spaced rest → Lacks (barredWords k) (barredMarks k) (spaced tokens ++ rest)

namespace Heads

theorem append (heads : Heads k tokens) (more : List Token) : Heads k (tokens ++ more) := by
  refine ⟨heads.begins.append more, fun rest spaces => ?_⟩
  rw [spaced_append, List.append_assoc]
  exact heads.absent _ (spaces.tokens more)

theorem mono (heads : Heads k tokens) (looser : j ≤ k) : Heads j tokens := by
  refine ⟨heads.begins, fun rest spaces => (heads.absent rest spaces).imp ?_ ?_⟩
  · unfold barredWords
    split
    · split <;> decide
    · rw [if_neg (by omega)]
      exact List.Subset.refl _
  · unfold barredMarks
    split
    · split <;> decide
    · rw [if_neg (by omega)]
      exact List.Subset.refl _

end Heads

/-! Loops over operators of one level. -/

section Loops

variable {operators : List (Parser Bool × BinaryOperator)}

/-- Behind the tokens the loop stands at this expression, with fuel for every character. -/
def Loops (operators : List (Parser Bool × BinaryOperator)) (operand : Parser Expression) (k : Nat)
    (tokens : List Token) (e : Expression) : Prop :=
  ∀ text rest, Skipped (spaced tokens ++ rest) text → Stops (k + 1) rest →
    ∃ after fuel, Skipped rest after ∧ (dropBlanks after).length < fuel ∧
      ∀ source, ((chain operators operand).run source).run text =
        ((chainFrom (firstOf operators) operand e fuel).run source).run after

theorem chainFrom_succ (fuel : Nat) (left : Expression) :
    chainFrom (firstOf operators) operand left (fuel + 1) = (do
      match ← firstOf operators with
      | some op => do
          let right ← operand
          chainFrom (firstOf operators) operand (.binary left op right) fuel
      | none => return left) := rfl

namespace Loops

theorem of_parses (one : Parses (Stops (k + 1)) operand tokens e) :
    Loops operators operand k tokens e := by
  intro text rest skipped stops
  obtain ⟨after, behind, taken⟩ := one text rest skipped stops
  refine ⟨after, after.length + 1, behind, Nat.lt_succ_of_le (length_dropBlanks after), ?_⟩
  intro source
  rw [chain, Parser.bind_run, taken source]
  rfl

theorem extend {op : BinaryOperator} (loops : Loops operators operand op.level tokens left)
    (found : Parses Spaced (firstOf operators) op.tokens (some op))
    (one : Parses (Stops (op.level + 1)) operand others right) :
    Loops operators operand op.level (tokens ++ (op.tokens ++ others)) (.binary left op right) := by
  intro text rest skipped stops
  rw [spaced_append, spaced_append, List.append_assoc, List.append_assoc] at skipped
  have spaces : Spaced (spaced others ++ rest) := stops.spaces.tokens others
  obtain ⟨middle, fuel, between, enough, run⟩ := loops text _ skipped (op.stops spaces)
  obtain ⟨next, behind, taken⟩ := found middle _ between spaces
  obtain ⟨after, ends, takenNext⟩ := one next rest behind stops
  obtain ⟨fuel, rfl⟩ : ∃ n, fuel = n + 1 := ⟨fuel - 1, by omega⟩
  refine ⟨after, fuel, ends, ?_, fun source => ?_⟩
  · have shorter := op.length_lt spaces
    have short := length_dropBlanks rest
    rw [between.dropBlanks_eq] at enough
    rw [ends.dropBlanks_eq]
    rw [List.length_append] at shorter
    omega
  · rw [run source, chainFrom_succ, Parser.bind_run, taken source]
    have later := Parser.bind_run operand (fun right =>
      chainFrom (firstOf operators) operand (.binary left op right) fuel) source next
    rw [takenNext source] at later
    exact later

theorem parses (loops : Loops operators operand k tokens e)
    (missing : Parses (Stops k) (firstOf operators) [] none) :
    Parses (Stops k) (chain operators operand) tokens e := by
  intro text rest skipped stops
  obtain ⟨middle, fuel, between, enough, run⟩ := loops text rest skipped (stops.mono (by omega))
  obtain ⟨after, ends, taken⟩ := missing middle rest between stops
  obtain ⟨fuel, rfl⟩ : ∃ n, fuel = n + 1 := ⟨fuel - 1, by omega⟩
  refine ⟨after, ends, fun source => ?_⟩
  rw [run source, chainFrom_succ, Parser.bind_run, taken source]
  rfl

end Loops

end Loops

theorem operators_lacking (k : Nat) :
    Parses (Lacks (fromLevel k continuingWords) (fromLevel k continuingMarks))
      (firstOf (operatorsAt k)) [] none := by
  have word {k : Nat} {word : String} (member : word ∈ fromLevel k continuingWords) :
      Parses (Lacks (fromLevel k continuingWords) (fromLevel k continuingMarks)) (tryKeyword word)
        [] false := tryKeyword_lacking member
  have with_ {k : Nat} {word : String} (member : word ∈ fromLevel k continuingWords) :
      Parses (Lacks (fromLevel k continuingWords) (fromLevel k continuingMarks))
        (tryKeywordWith word) [] false := tryKeywordWith_lacking member
  have char {k : Nat} {c : Char} (member : c ∈ fromLevel k continuingMarks) :
      Parses (Lacks (fromLevel k continuingWords) (fromLevel k continuingMarks)) (tryChar c) []
        false := tryChar_lacking member
  have mark {k : Nat} {c : Char} (more : List Char) (member : c ∈ fromLevel k continuingMarks) :
      Parses (Lacks (fromLevel k continuingWords) (fromLevel k continuingMarks))
        (tryMark (c :: more)) [] false := tryMark_lacking more member
  refine firstOf_misses ?_
  match k with
  | 0 | 1 | 2 => exact List.forall_mem_singleton.mpr (word (by decide))
  | 3 => exact List.forall_mem_nil _
  | 4 =>
      simp only [operatorsAt, comparisons, List.forall_mem_cons]
      exact ⟨mark _ (by decide), mark _ (by decide), mark _ (by decide), mark _ (by decide),
        char (by decide), char (by decide), char (by decide), word (by decide), word (by decide),
        with_ (by decide), with_ (by decide), List.forall_mem_nil _⟩
  | 5 =>
      simp only [operatorsAt, List.forall_mem_cons]
      exact ⟨char (by decide), char (by decide), List.forall_mem_nil _⟩
  | 6 =>
      simp only [operatorsAt, List.forall_mem_cons]
      exact ⟨char (by decide), char (by decide), char (by decide), List.forall_mem_nil _⟩
  | _ + 7 => exact List.forall_mem_nil _

theorem operators_miss (k : Nat) : Parses (Stops k) (firstOf (operatorsAt k)) [] none :=
  (operators_lacking k).weaken fun _ stops => stops.absent

section Fuel

variable {ι α β : Type} {p : Nat → ι → Parser α} {step : (ι → Parser α) → ι → Parser α}

/-- A step goes on only with what is left behind something. -/
def Shrinks (step : (ι → Parser α) → ι → Parser α) : Prop :=
  ∀ i source text q r, (∀ j rest, rest.length < text.length → ((q j).run source).run rest =
    ((r j).run source).run rest) →
      ((step q i).run source).run text = ((step r i).run source).run text

/-- Of nothing at all a step makes the same whatever goes on behind it. -/
theorem Shrinks.base (shrinks : Shrinks step) (q r : ι → Parser α) (i : ι) (source : Source) :
    ((step q i).run source).run [] = ((step r i).run source).run [] :=
  shrinks i source [] q r nofun

/-- With fuel for every character, one more step makes no difference. -/
theorem fuel_step
    (base : ∀ i source, ((p 0 i).run source).run [] = ((step (p 0) i).run source).run [])
    (succ : ∀ n, p (n + 1) = step (p n)) (shrinks : Shrinks step) (i : ι) :
    (do p (← get).length i) = step (fun j => do p (← get).length j) i := by
  have same (source : Source) (n : Nat) (i : ι) (text : List Char) (enough : text.length ≤ n) :
      ((p n i).run source).run text = ((step (p n) i).run source).run text := by
    induction n generalizing i text with
    | zero =>
        cases List.eq_nil_of_length_eq_zero (Nat.le_zero.mp enough)
        exact base i source
    | succ n ih =>
        rw [succ n]
        exact shrinks i source text _ _ fun j rest shorter => ih j rest (by omega)
  have less (source : Source) (n m : Nat) (i : ι) (text : List Char) (enough : text.length ≤ n) :
      ((p (n + m) i).run source).run text = ((p n i).run source).run text := by
    induction m with
    | zero => rfl
    | succ m ih =>
        rw [← Nat.add_assoc, succ, ← same source _ i text (by omega), ih]
  funext source text
  refine (same source text.length i text (Nat.le_refl _)).trans ?_
  refine shrinks i source text _ _ fun j rest shorter => ?_
  obtain ⟨m, equal⟩ := Nat.exists_eq_add_of_le (Nat.le_of_lt shorter)
  rw [equal]
  exact less source rest.length m j rest (Nat.le_refl _)

theorem bind_same {q r : Parser α} (next : α → Parser β) {source : Source} {text : List Char}
    (same : (q.run source).run text = (r.run source).run text) :
    ((q >>= next).run source).run text = ((r >>= next).run source).run text := by
  rw [Parser.bind_run, Parser.bind_run, same]

end Fuel

theorem length_tail_dropBlanks {c : Char} {text : List Char}
    (here : (dropBlanks text).head? = some c) : (dropBlanks text).tail.length < text.length := by
  obtain ⟨more, shown⟩ := List.head?_eq_some_iff.mp here
  have short := length_dropBlanks text
  rw [shown, List.length_cons] at short
  rw [shown]
  exact short

/-- One NOT, behind which the parser reads on. -/
def negationStep (operand : Parser Expression) (p : Unit → Parser Expression) (_ : Unit) :
    Parser Expression := do
  if ← tryKeyword "NOT" then return .not (← p ())
  operand

theorem negationStep_shrinks (operand : Parser Expression) : Shrinks (negationStep operand) := by
  intro _ source text q r same
  rw [negationStep, negationStep, Parser.bind_run, Parser.bind_run, tryKeyword_eq]
  split
  · next rest found =>
      have shorter := length_afterKeyword found
      have short := length_dropBlanks text
      have letters : "NOT".toList.length = 3 := rfl
      exact bind_same (fun e => return Expression.not e) (same () rest (by omega))
  · rfl

theorem condition_eq (nested : Parser Expression) :
    condition nested = (do
      if ← tryKeyword "NOT" then return .not (← condition nested)
      comparison nested) :=
  @fuel_step _ _ (fun n _ => negation (comparison nested) n) (negationStep (comparison nested))
    (fun _ _ => rfl) (fun _ => rfl) (negationStep_shrinks _) ()

/-- One sign, behind which the parser reads on. -/
def signedStep (operand : Parser Expression) (p : Unit → Parser Expression) (_ : Unit) :
    Parser Expression := do
  if ← tryChar '-' then return negated (← p ())
  if ← tryChar '+' then return ← p ()
  operand

theorem signedStep_shrinks (operand : Parser Expression) : Shrinks (signedStep operand) := by
  intro _ source text q r same
  rw [signedStep, signedStep, Parser.bind_run, Parser.bind_run, tryChar_run]
  split
  · next minus =>
      exact bind_same (fun e => return negated e)
        (same () _ (length_tail_dropBlanks (by simpa using minus)))
  · have positive : (((do if ← tryChar '+' then q () else operand : Parser Expression).run
        source).run (dropBlanks text)) =
        ((do if ← tryChar '+' then r () else operand : Parser Expression).run source).run
          (dropBlanks text) := by
      rw [Parser.bind_run, Parser.bind_run, tryChar_run, dropBlanks_dropBlanks]
      split
      · next plus => exact same () _ (length_tail_dropBlanks (by simpa using plus))
      · rfl
    exact positive

theorem signed_eq (operand : Parser Expression) :
    (do signed operand (← get).length) = (do
      if ← tryChar '-' then return negated (← do signed operand (← get).length)
      if ← tryChar '+' then return ← do signed operand (← get).length
      operand) :=
  @fuel_step _ _ (fun n _ => signed operand n) (signedStep operand) (fun _ _ => rfl)
    (fun _ => rfl) (signedStep_shrinks operand) ()

theorem unary_eq (nested : Parser Expression) :
    unary nested = (do
      if ← tryChar '-' then return negated (← unary nested)
      if ← tryChar '+' then return ← unary nested
      primary nested) := signed_eq (primary nested)

/-- The tokens make this expression at some level, and at grouped levels operators may follow. -/
structure ReadsAt (nested : Parser Expression) (k : Nat) (tokens : List Token) (e : Expression) :
    Prop where
  heads : Heads k tokens
  parses : Parses (Stops k) (parserAt nested k) tokens e
  loops : isGrouped k = true →
    Loops (operatorsAt k) (parserAt nested (k + 1)) k tokens e

namespace ReadsAt

theorem lacks (reads : ReadsAt nested k tokens e) {words : List String} {marks : List Char}
    (included : words ⊆ barredWords k) (includedToo : marks ⊆ barredMarks k) (rest : List Char)
    (stops : Stops j rest) : Lacks words marks (spaced tokens ++ rest) :=
  (reads.heads.absent rest stops.spaces).imp included includedToo

theorem of_loops (heads : Heads k tokens) (grouped : isGrouped k = true)
    (loops : Loops (operatorsAt k) (parserAt nested (k + 1)) k tokens e) :
    ReadsAt nested k tokens e := by
  refine ⟨heads, ?_, fun _ => loops⟩
  rw [parserAt_grouped nested grouped]
  exact loops.parses (operators_miss k)

theorem of_sum (reads : ReadsAt nested 5 tokens e) : ReadsAt nested 4 tokens e := by
  refine ⟨reads.heads.mono (by omega), ?_, fun grouped => absurd grouped (by decide)⟩
  have alone : Parses (Stops 4) (comparison nested) (tokens ++ []) e := by
    refine reads.parses.bind ?_ fun rest stops => stops.mono (by omega)
    refine .noKeyword ?_ fun rest stops => stops.absent.imp (by decide) (by decide)
    exact (operators_miss 4).look (.pure e) fun rest stops => stops
  rwa [List.append_nil] at alone

theorem looser (reads : ReadsAt nested (k + 1) tokens e) (below : k < 8) :
    ReadsAt nested k tokens e := by
  by_cases grouped : isGrouped k = true
  · exact of_loops (reads.heads.mono (by omega)) grouped (.of_parses reads.parses)
  have cases_ : k = 3 ∨ k = 4 ∨ k = 7 := by
    rw [isGrouped, List.contains_iff_mem] at grouped
    simp only [List.mem_cons, List.not_mem_nil, or_false, not_or] at grouped
    omega
  rcases cases_ with rfl | rfl | rfl
  · refine ⟨reads.heads.mono (by omega), ?_, fun h => absurd h grouped⟩
    have condition_ : Parses (Stops 3) (condition nested) tokens e := by
      rw [condition_eq]
      refine .noKeyword ?_ fun rest stops => reads.lacks (by decide) (by decide) rest stops
      exact reads.parses.weaken fun rest stops => stops.mono (by omega)
    exact condition_
  · exact reads.of_sum
  · refine ⟨reads.heads.mono (by omega), ?_, fun h => absurd h grouped⟩
    have unary_ : Parses (Stops 7) (unary nested) tokens e := by
      rw [unary_eq]
      refine .noMark ?_ fun rest stops => reads.lacks (by decide) (by decide) rest stops
      refine .noMark ?_ fun rest stops => reads.lacks (by decide) (by decide) rest stops
      exact reads.parses.weaken fun rest stops => stops.mono (by omega)
    exact unary_

theorem mono (reads : ReadsAt nested k tokens e) (looser_ : j ≤ k) (below : k ≤ 8) :
    ReadsAt nested j tokens e := by
  induction k with
  | zero =>
      cases Nat.le_zero.mp looser_
      exact reads
  | succ k ih =>
      rcases Nat.eq_or_lt_of_le looser_ with rfl | less
      · exact reads
      · exact ih (reads.looser (by omega)) (by omega) (by omega)

theorem binary {op : BinaryOperator} (first : ReadsAt nested op.leftPlace tokens left)
    (second : ReadsAt nested (op.level + 1) others right) :
    ReadsAt nested op.level (tokens ++ (op.tokens ++ others)) (.binary left op right) := by
  by_cases compares : op.level = 4
  · have found := op.parses
    have stops (rest : List Char) (spaces : Spaced rest) := op.stops spaces
    rw [BinaryOperator.leftPlace, if_pos compares] at first
    rw [compares] at second found stops ⊢
    have behind : Parses (Stops 4) (do
        if ← tryKeyword "IS" then
          let negative ← tryKeyword "NOT"
          expectKeyword "NULL"
          return if negative then .isNotNull left else .isNull left
        match ← firstOf comparisons with
        | some op => return .binary left op (← sum nested)
        | none => return left) (op.tokens ++ others) (Expression.binary left op right) := by
      refine .noKeyword ?_ fun rest ends => ?_
      · refine found.bind ?_ fun rest ends => ends.spaces.tokens others
        exact (second.parses.weaken fun rest ends => ends.mono (by omega)).last rfl
      · rw [spaced_append, List.append_assoc]
        exact op.lacks_is (ends.spaces.tokens others)
    refine ⟨(first.heads.append _).mono (by omega), first.parses.bind behind fun rest ends => ?_,
      fun grouped => absurd grouped (by decide)⟩
    rw [spaced_append, List.append_assoc]
    exact stops _ (ends.spaces.tokens others)
  · have grouped : isGrouped op.level = true := by
      cases op <;> first | rfl | exact absurd rfl compares
    rw [BinaryOperator.leftPlace, if_neg compares] at first
    exact of_loops (first.heads.append _) grouped
      ((first.loops grouped).extend op.parses second.parses)

theorem not (reads : ReadsAt nested 3 tokens e) :
    ReadsAt nested 3 ("NOT".toList :: tokens) (.not e) := by
  refine ⟨⟨⟨_, _, rfl, .of_head rfl (by decide) _⟩, fun rest spaces => rfl⟩, ?_,
    fun grouped => absurd grouped (by decide)⟩
  have condition_ : Parses (Stops 3) (condition nested) ("NOT".toList :: tokens) (.not e) := by
    rw [condition_eq]
    exact .keyword (by decide) (reads.parses.last rfl) fun rest stops => stops.spaces
  exact condition_

theorem negate (reads : ReadsAt nested 7 tokens e) :
    ReadsAt nested 7 (['-'] :: tokens) (negated e) := by
  refine ⟨⟨⟨_, _, rfl, .of_head rfl (by decide) _⟩, fun rest spaces => rfl⟩, ?_,
    fun grouped => absurd grouped (by decide)⟩
  have unary_ : Parses (Stops 7) (unary nested) (['-'] :: tokens) (negated e) := by
    rw [unary_eq]
    exact .mark rfl (by decide) (reads.parses.last rfl)
  exact unary_

theorem tested (reads : ReadsAt nested 5 tokens e) (negative : Bool) :
    ReadsAt nested 4
      (tokens ++ ("IS".toList :: (if negative then ["NOT".toList] else []) ++ ["NULL".toList]))
      (if negative then .isNotNull e else .isNull e) := by
  have null (follows : List Char → Prop) (spaces : ∀ rest, follows rest → Spaced rest) :
      Parses follows (do
        expectKeyword "NULL"
        return if negative then Expression.isNotNull e else .isNull e)
        ["NULL".toList] (if negative then .isNotNull e else .isNull e) :=
    ((expectKeyword_parses (by decide)).weaken spaces).last rfl
  have behind : Parses (Stops 4) (do
      if ← tryKeyword "IS" then
        let negative ← tryKeyword "NOT"
        expectKeyword "NULL"
        return if negative then .isNotNull e else .isNull e
      match ← firstOf comparisons with
      | some op => return .binary e op (← sum nested)
      | none => return e)
      ("IS".toList :: ((if negative then ["NOT".toList] else []) ++ ["NULL".toList]))
      (if negative then .isNotNull e else .isNull e) := by
    refine .keyword (by decide) ?_ fun rest stops => stops.spaces
    cases negative with
    | true =>
        exact .keyword (by decide) (null _ fun rest stops => stops.spaces)
          fun rest stops => stops.spaces
    | false => exact .noKeyword (null _ fun rest stops => stops.spaces) fun rest stops => rfl
  refine ⟨(reads.heads.append _).mono (by omega), ?_, fun grouped => absurd grouped (by decide)⟩
  refine reads.parses.bind behind fun rest stops => ⟨stops.spaces.tokens _, ?_⟩
  cases negative <;> rfl

end ReadsAt

end PropertyGraph.Cypher
