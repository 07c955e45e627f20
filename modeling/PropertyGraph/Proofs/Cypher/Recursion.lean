import PropertyGraph.Proofs.Cypher.Operands

/-!
Readers that call themselves. Each loop is what one round of it and the same loop make, without its
fuel, and what is read with some levels of brackets is read with more of them too.
-/

namespace PropertyGraph.Cypher

variable {α β γ : Type} {p q : Parser α}

section Loops

variable {item : Parser α} {item? : Parser (Option α)} {operand : Parser Expression}
  {operators : List (Parser Bool × BinaryOperator)}

/-- No more is left than there was. -/
def Shortens (p : Parser α) : Prop :=
  ∀ source text a rest, (p.run source).run text = .ok (a, rest) → rest.length ≤ text.length

theorem Parser.get_run (next : List Char → Parser α) (source : Source) (text : List Char) :
    ((get >>= next).run source).run text = ((next text).run source).run text := rfl

theorem bind_same_ok {next next' : α → Parser β} {source : Source} {text : List Char}
    (same : ∀ a rest, (p.run source).run text = .ok (a, rest) →
      ((next a).run source).run rest = ((next' a).run source).run rest) :
    ((p >>= next).run source).run text = ((p >>= next').run source).run text := by
  rw [Parser.bind_run, Parser.bind_run]
  cases read : (p.run source).run text with
  | error fault => rfl
  | ok found => exact same found.1 found.2 read

/-- One item, and a comma behind which the parser reads on. -/
def separatedStep (item : Parser α) (p : Unit → Parser (List α)) (_ : Unit) :
    Parser (List α) := do
  let first ← item
  if ← tryChar ',' then return first :: (← p ())
  return [first]

theorem separatedStep_shrinks (shortens : Shortens item) : Shrinks (separatedStep item) := by
  intro _ source text q r same
  refine bind_same_ok fun first rest read => ?_
  have short := shortens _ _ _ _ read
  rw [Parser.bind_run, Parser.bind_run, tryChar_run]
  split
  · next comma =>
      have shorter : (dropBlanks rest).tail.length < rest.length :=
        length_tail_dropBlanks (c := ',') (by simpa using comma)
      exact bind_same (fun others => return first :: others)
        (same () _ (Nat.lt_of_lt_of_le shorter short))
  · rfl

theorem separated_eq (shortens : Shortens item) :
    separated item = (do
      let first ← item
      if ← tryChar ',' then return first :: (← separated item)
      return [first]) := by
  refine @fuel_step _ _ (fun n _ => separatedFrom item n) (separatedStep item)
    (fun _ source => ?_) (fun _ => rfl) (separatedStep_shrinks shortens) ()
  refine bind_same_ok fun first rest read => ?_
  obtain rfl := List.eq_nil_of_length_eq_zero (Nat.le_zero.mp (shortens _ _ _ _ read))
  rfl

/-- One item, if there is one, behind which the parser reads on. -/
def repeatedStep (item? : Parser (Option α)) (p : Unit → Parser (List α)) (_ : Unit) :
    Parser (List α) := do
  match ← item? with
  | some first => return first :: (← p ())
  | none => return []

theorem repeatedStep_shrinks (consumes : Consumes item?) : Shrinks (repeatedStep item?) := by
  intro _ source text q r same
  refine bind_same_ok fun found rest read => ?_
  cases found with
  | none => rfl
  | some first =>
      exact bind_same (fun others => return first :: others)
        (same () rest (consumes _ _ _ _ read))

theorem repeated_eq (consumes : Consumes item?) :
    repeated item? = (do
      match ← item? with
      | some first => return first :: (← repeated item?)
      | none => return []) := by
  have shrinks := repeatedStep_shrinks consumes
  exact @fuel_step _ _ (fun n _ => repeatedFrom item? (n + 1)) (repeatedStep item?)
    (fun i source => shrinks.base (fun _ => repeatedFrom item? 0)
      (fun _ => repeatedFrom item? 1) i source) (fun _ => rfl) shrinks ()

/-- What is read behind the first operand. -/
def chainBehind (operators : List (Parser Bool × BinaryOperator)) (operand : Parser Expression)
    (left : Expression) : Parser Expression := do
  chainFrom (firstOf operators) operand left ((← get).length + 1)

theorem chain_eq : chain operators operand = operand >>= chainBehind operators operand := rfl

/-- One operator and its operand, behind which the parser reads on. -/
def chainStep (operator? : Parser (Option BinaryOperator)) (operand : Parser Expression)
    (p : Expression → Parser Expression) (left : Expression) : Parser Expression := do
  match ← operator? with
  | some op => do
      let right ← operand
      p (.binary left op right)
  | none => return left

theorem chainStep_shrinks (shortens : Shortens operand) (consumes : Consumes (firstOf operators)) :
    Shrinks (chainStep (firstOf operators) operand) := by
  intro left source text q r same
  refine bind_same_ok fun found rest read => ?_
  cases found with
  | none => rfl
  | some op =>
      have shorter := consumes _ _ _ _ read
      exact bind_same_ok fun right after readRight =>
        same _ after (Nat.lt_of_le_of_lt (shortens _ _ _ _ readRight) shorter)

theorem chainBehind_eq (shortens : Shortens operand) (consumes : Consumes (firstOf operators))
    (left : Expression) :
    chainBehind operators operand left = (do
      match ← firstOf operators with
      | some op => do
          let right ← operand
          chainBehind operators operand (.binary left op right)
      | none => return left) := by
  have shrinks := chainStep_shrinks shortens consumes
  exact @fuel_step _ _ (fun n left => chainFrom (firstOf operators) operand left (n + 1))
    (chainStep (firstOf operators) operand)
    (fun left source => shrinks.base (fun left => chainFrom (firstOf operators) operand left 0)
      (fun left => chainFrom (firstOf operators) operand left 1) left source)
    (fun _ => rfl) shrinks left

/-- What is found is taken. -/
def Tests (test : Parser Bool) : Prop :=
  ∀ source text found rest, (test.run source).run text = .ok (found, rest) →
    rest.length + found.toNat ≤ text.length

theorem tryChar_tests (c : Char) : Tests (tryChar c) := by
  intro source text found rest read
  have short := length_dropBlanks text
  rw [tryChar_run] at read
  split at read
  · next here =>
      cases read
      exact length_tail_dropBlanks (by simpa using here)
  · cases read
    exact short

theorem tryMark_tests {mark : List Char} (some_ : mark ≠ []) : Tests (tryMark mark) := by
  intro source text found rest read
  have short := length_dropBlanks text
  cases here : mark.isPrefixOf (dropBlanks text) with
  | true =>
      obtain ⟨more, shown⟩ := List.isPrefixOf_iff_prefix.mp here
      rw [tryMark_found shown.symm source] at read
      cases read
      have letters := List.length_pos_of_ne_nil some_
      rw [← shown, List.length_append] at short
      simp only [Bool.toNat_true]
      omega
  | false =>
      rw [tryMark_absent here source] at read
      cases read
      exact short

theorem tryKeyword_tests {word : String} (some_ : word.toList ≠ []) : Tests (tryKeyword word) := by
  intro source text found rest read
  have short := length_dropBlanks text
  rw [tryKeyword_eq] at read
  split at read
  · next here =>
      cases read
      have shorter := length_afterKeyword here
      have letters := List.length_pos_of_ne_nil some_
      simp only [Bool.toNat_true]
      omega
  · cases read
    exact short

theorem Shortens.of_steady (steady : Steady p) : Shortens p := by
  intro source text a rest read
  obtain ⟨outcome, same, short⟩ := steady text
  have found := same source
  rw [read] at found
  exact short (a, rest) found.symm

theorem tryKeywordWith_tests {word : String} (some_ : word.toList ≠ []) :
    Tests (tryKeywordWith word) := by
  intro source text found rest read
  obtain ⟨⟨here, middle⟩, one, two⟩ := bind_eq_ok.mp read
  have shorter := tryKeyword_tests some_ _ _ _ _ one
  cases here with
  | false =>
      cases two
      exact shorter
  | true =>
      obtain ⟨⟨_, after⟩, with_, last⟩ := bind_eq_ok.mp two
      cases last
      exact Nat.le_trans (Nat.add_le_add_right
        (Shortens.of_steady (expectKeyword_steady "WITH") _ _ _ _ with_) 1) shorter

theorem firstOf_consumes (tests : ∀ o ∈ operators, Tests o.1) : Consumes (firstOf operators) := by
  induction operators with
  | nil => nofun
  | cons o others ih =>
      obtain ⟨first, later⟩ := List.forall_mem_cons.mp tests
      intro source text op rest read
      obtain ⟨⟨here, middle⟩, one, two⟩ := bind_eq_ok.mp read
      have shorter := first _ _ _ _ one
      cases here with
      | false => exact Nat.lt_of_lt_of_le (ih later _ _ _ _ two) shorter
      | true =>
          cases two
          exact shorter

theorem Consumes.of_test {test : Parser Bool} (tests : Tests test) (shortens : Shortens item?) :
    Consumes (do if ← test then item? else return none) := by
  intro source text a rest read
  obtain ⟨⟨here, middle⟩, one, two⟩ := bind_eq_ok.mp read
  have shorter := tests _ _ _ _ one
  cases here with
  | false => cases two
  | true => exact Nat.lt_of_le_of_lt (shortens _ _ _ _ two) shorter

end Loops

/-- Whatever the first parser reads, the second reads. -/
def Below (p q : Parser α) : Prop :=
  ∀ source text found, (p.run source).run text = .ok found → (q.run source).run text = .ok found

namespace Below

theorem refl (p : Parser α) : Below p p := fun _ _ _ read => read

theorem bind {next next' : α → Parser β} (first : Below p q)
    (others : ∀ a, Below (next a) (next' a)) : Below (p >>= next) (q >>= next') := by
  intro source text found read
  obtain ⟨⟨a, middle⟩, one, two⟩ := bind_eq_ok.mp read
  exact bind_eq_ok.mpr ⟨(a, middle), first _ _ _ one, others a _ _ _ two⟩

theorem then_ {next next' : α → Parser β} (others : ∀ a, Below (next a) (next' a)) :
    Below (p >>= next) (p >>= next') := (refl p).bind others

theorem of_fails (fails : Fails p) : Below p q := by
  intro source text found read
  have none_ := fails source text
  rw [read] at none_
  cases none_

theorem last {next : α → Parser β} (below : Below p q) : Below (p >>= next) (q >>= next) :=
  below.bind fun _ => refl _

theorem choice {c : Prop} [Decidable c] {p' q' : Parser α} (yes : Below p q) (no : Below p' q') :
    Below (if c then p else p') (if c then q else q') := by
  split
  · exact yes
  · exact no

theorem separated (below : Below p q) : Below (separated p) (separated q) := by
  have from_ (fuel : Nat) : Below (separatedFrom p fuel) (separatedFrom q fuel) := by
    induction fuel with
    | zero => exact below.last
    | succ fuel ih =>
        exact below.bind fun first => then_ fun more => choice ih.last (refl _)
  exact then_ fun text => from_ text.length

theorem chain {p q : Parser Expression} (operators : List (Parser Bool × BinaryOperator))
    (below : Below p q) : Below (chain operators p) (chain operators q) := by
  have from_ (fuel : Nat) (left : Expression) :
      Below (chainFrom (firstOf operators) p left fuel)
        (chainFrom (firstOf operators) q left fuel) := by
    induction fuel generalizing left with
    | zero => exact refl _
    | succ fuel ih =>
        refine then_ fun found => ?_
        split
        · exact below.bind fun right => ih _
        · exact refl _
  exact below.bind fun left => then_ fun rest => from_ _ left

variable {nested nested' : Parser Expression} (inside : Below nested nested')

include inside

theorem itemsUntil (close : Char) : Below (itemsUntil close nested) (itemsUntil close nested') :=
  then_ fun _ => choice (refl _) inside.separated.last

theorem mapEntries : Below (mapEntries nested) (mapEntries nested') := by
  have entry : Below (mapEntry nested) (mapEntry nested') :=
    then_ fun _ => then_ fun _ => inside.last
  exact then_ fun _ => choice (refl _) entry.separated.last

theorem call (name : String) : Below (call nested name) (call nested' name) := by
  have arguments (name : String) : Below (do
      let distinct ← tryKeyword "DISTINCT"
      return Expression.call name distinct (← Cypher.itemsUntil ')' nested)) (do
      let distinct ← tryKeyword "DISTINCT"
      return Expression.call name distinct (← Cypher.itemsUntil ')' nested')) :=
    then_ fun _ => (inside.itemsUntil ')').last
  unfold Cypher.call
  dsimp only
  exact choice (then_ fun star => choice (refl _) (arguments _)) (arguments _)

theorem named : Below (named nested) (named nested') := by
  refine then_ fun here => ?_
  split
  · refine then_ fun word => ?_
    split
    · exact of_fails (.throw _)
    refine then_ fun opened => ?_
    split
    · exact inside.call word
    · exact refl _
  · exact of_fails (.then_ fun _ => .then_ fun _ => .throw _)

theorem primary : Below (primary nested) (primary nested') := by
  refine then_ fun parenthesis => choice inside.last (then_ fun bracket =>
    choice (inside.itemsUntil ']').last (then_ fun brace => choice inside.mapEntries.last
    (then_ fun dollar => choice (refl _) (then_ fun found => ?_))))
  split
  · exact refl _
  · exact then_ fun digit => choice (refl _) (then_ fun true_ => choice (refl _)
      (then_ fun false_ => choice (refl _) (then_ fun null => choice (refl _) inside.named)))

theorem unary : Below (unary nested) (unary nested') := by
  have signed_ (fuel : Nat) :
      Below (signed (Cypher.primary nested) fuel) (signed (Cypher.primary nested') fuel) := by
    induction fuel with
    | zero => exact inside.primary
    | succ fuel ih =>
        exact then_ fun minus => choice ih.last (then_ fun plus => choice ih inside.primary)
  exact then_ fun rest => signed_ _

theorem sum : Below (sum nested) (sum nested') := (inside.unary.chain _).chain _

theorem comparison : Below (comparison nested) (comparison nested') := by
  refine inside.sum.bind fun left => then_ fun is => choice (refl _) (then_ fun found => ?_)
  split
  · exact inside.sum.last
  · exact refl _

theorem condition : Below (condition nested) (condition nested') := by
  have negation_ (fuel : Nat) : Below (negation (Cypher.comparison nested) fuel)
      (negation (Cypher.comparison nested') fuel) := by
    induction fuel with
    | zero => exact inside.comparison
    | succ fuel ih =>
        exact then_ fun not => choice ih.last inside.comparison
  exact then_ fun rest => negation_ _

theorem connected : Below (connected nested) (connected nested') :=
  ((inside.condition.chain _).chain _).chain _

end Below

/-- What is read with some levels of brackets is read with more of them. -/
theorem expressionWithin_below {depth deeper : Nat} (le : depth ≤ deeper) :
    Below (expressionWithin depth) (expressionWithin deeper) := by
  induction depth generalizing deeper with
  | zero => exact fun _ _ _ read => by cases read
  | succ depth ih =>
      obtain ⟨deeper, rfl⟩ : ∃ n, deeper = n + 1 := ⟨deeper - 1, by omega⟩
      exact (ih (by omega)).connected

end PropertyGraph.Cypher
