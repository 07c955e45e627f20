import PropertyGraph.Proofs.Cypher.Printing

/-!
Levels of expressions. A reader of some level goes on for as long as operators of its level or of
tighter ones follow, so what stands behind an expression must begin with none of them; the operands
of one level are added one by one to what was read before them.
-/

namespace PropertyGraph.Cypher

variable {α : Type}

def lacks (words : List String) (marks shown : List Char) : Bool :=
  words.all (fun word => (afterKeyword? word.toList shown).isNone)
    && !shown.head?.any fun c => marks.contains c

/-- None of these words and marks stands behind the blanks. -/
def Lacks (words : List String) (marks rest : List Char) : Prop :=
  lacks words marks (dropBlanks rest) = true

namespace Lacks

variable {words fewer : List String} {marks others rest : List Char}

theorem word {word : String} (absent : Lacks words marks rest) (member : word ∈ words) :
    afterKeyword? word.toList (dropBlanks rest) = none := by
  have none_ := List.all_eq_true.mp ((Bool.and_eq_true _ _).mp absent).1 word member
  exact Option.isNone_iff_eq_none.mp none_

theorem mark {c : Char} (absent : Lacks words marks rest) (member : c ∈ marks) :
    (dropBlanks rest).head? ≠ some c := by
  intro here
  have none_ := ((Bool.and_eq_true _ _).mp absent).2
  rw [here, Option.any_some, List.contains_iff_mem.mpr member] at none_
  cases none_

theorem intro (others : ∀ word ∈ words, afterKeyword? word.toList (dropBlanks rest) = none)
    (apart : ∀ c ∈ marks, (dropBlanks rest).head? ≠ some c) : Lacks words marks rest := by
  refine (Bool.and_eq_true _ _).mpr ⟨List.all_eq_true.mpr fun word member => ?_, ?_⟩
  · rw [others word member, Option.isNone_none]
  · rw [Bool.not_eq_true', Option.any_eq_false]
    intro c here
    rw [← Bool.not_eq_true, List.contains_iff_mem]
    exact fun member => apart c member here

theorem imp (absent : Lacks words marks rest) (included : fewer ⊆ words)
    (includedToo : others ⊆ marks) : Lacks fewer others rest :=
  .intro (fun _ member => absent.word (included member))
    fun _ member => absent.mark (includedToo member)

theorem of_skipped {text : List Char} (absent : Lacks words marks rest)
    (skipped : Skipped rest text) : Lacks words marks text := by
  unfold Lacks
  rw [skipped.dropBlanks_eq]
  exact absent

/-- Behind digits no word is found, and other marks neither. -/
theorem of_number (n : Nat) (letters : ∀ word ∈ words, word.toList.head?.any (!isDigit ·) = true)
    (apart : marks.any isDigit = false) :
    Lacks words marks (' ' :: (digitChars n ++ rest)) := by
  have shown := (Visible.of_number n).dropBlanks_eq rest
  obtain ⟨d, more, same, digit⟩ := digitChars_cases n
  obtain ⟨_, _, upper⟩ := isDigit_cases digit
  rw [same, List.cons_append] at shown
  refine .intro (fun word member => ?_) fun c member => ?_
  · have letter := letters word member
    rw [same, List.cons_append, shown]
    cases spelled : word.toList with
    | nil =>
        rw [spelled] at letter
        cases letter
    | cons k others =>
        rw [spelled, List.head?_cons, Option.any_some, Bool.not_eq_true'] at letter
        rw [afterKeyword?, if_neg]
        rw [upper]
        exact isDigit_ne digit letter
  · rw [same, List.cons_append, shown, List.head?_cons]
    intro here
    cases Option.some.inj here
    exact List.any_eq_false.mp apart _ member digit

/-- Behind a name only the words that it spells are found, and no marks. -/
theorem of_name {name : String} (plain : isBareName name = true) (spaces : Spaced rest)
    (letters : ∀ word ∈ words, ' ' ∉ word.toList ∧ name.toList.map Char.toUpper ≠ word.toList)
    (apart : marks.any beginsBare = false) :
    Lacks words marks (' ' :: (name.toList ++ rest)) := by
  have shown := (Visible.of_name plain).dropBlanks_eq rest
  obtain ⟨c, more, same, begins, parts⟩ := isBareName_cases plain
  refine .intro (fun word member => ?_) fun d member => ?_
  · obtain ⟨letters, other⟩ := letters word member
    rw [shown, Option.eq_none_iff_forall_not_mem]
    intro after found
    refine other (eq_of_afterKeyword? ?_ letters spaces found)
    rw [same]
    exact List.forall_mem_cons.mpr ⟨isWordPart_of_beginsBare begins, parts⟩
  · rw [shown, same]
    intro here
    cases Option.some.inj here
    exact List.any_eq_false.mp apart _ member begins

theorem of_word {name : String} (plain : isBareName name = true) (spaces : Spaced rest)
    {known : List String}
    (other : (known.any fun word => name.toList.map Char.toUpper == word.toList) = false)
    (included : words ⊆ known) (letters : ∀ word ∈ words, ' ' ∉ word.toList)
    (apart : marks.any beginsBare = false) :
    Lacks words marks (' ' :: (name.toList ++ rest)) := by
  refine .of_name plain spaces (fun word member => ⟨letters word member, ?_⟩) apart
  intro same
  apply List.any_eq_false.mp other word (included member)
  rw [same]
  exact beq_self_eq_true _

end Lacks

section Misses

variable {follows : List Char → Prop} {words : List String} {marks : List Char}

theorem tryKeyword_lacking {word : String} (member : word ∈ words) :
    Parses (Lacks words marks) (tryKeyword word) [] false :=
  (tryKeyword_misses word).weaken fun _ absent => absent.word member

theorem tryChar_lacking {c : Char} (member : c ∈ marks) :
    Parses (Lacks words marks) (tryChar c) [] false :=
  (tryChar_misses c).weaken fun _ absent => absent.mark member

theorem tryMark_lacking {c : Char} (more : List Char) (member : c ∈ marks) :
    Parses (Lacks words marks) (tryMark (c :: more)) [] false := by
  refine (tryMark_misses _).weaken fun rest absent => ?_
  have other := absent.mark member
  generalize dropBlanks rest = shown at other
  cases shown with
  | nil => rfl
  | cons d others =>
      rw [List.isPrefixOf_cons_cons, Bool.and_eq_false_iff]
      exact .inl (beq_false_of_ne fun same => other (congrArg some same.symm))

theorem tryKeywordWith_lacking {word : String} (member : word ∈ words) :
    Parses (Lacks words marks) (tryKeywordWith word) [] false :=
  (tryKeyword_lacking member).look (.pure false) fun _ absent => absent

theorem firstOf_misses {operators : List (Parser Bool × BinaryOperator)}
    (each : ∀ o ∈ operators, Parses follows o.1 [] false) :
    Parses follows (firstOf operators) [] none := by
  induction operators with
  | nil => exact .pure none
  | cons first others ih =>
      refine (each first List.mem_cons_self).look (a := false) ?_ fun _ ends => ends
      exact ih fun o other => each o (List.mem_cons_of_mem _ other)

end Misses

/-! One word or mark, and what comes behind it. -/

namespace Parses

variable {β : Type} {follows : List Char → Prop} {next : Bool → Parser β} {after : Unit → Parser β}
  {tokens : List (List Char)} {b : β} {c : Char} {word : String}

theorem mark (visible : Text.isBlank c = false) (other : c ≠ '/')
    (two : Parses follows (next true) tokens b) :
    Parses follows (tryChar c >>= next) ([c] :: tokens) b := by
  have one : Parses (fun _ => True) (tryChar c) [[c]] true := tryChar_parses visible other
  exact one.bind two fun _ _ => trivial

theorem expect (visible : Text.isBlank c = false) (other : c ≠ '/')
    (two : Parses follows (after ()) tokens b) :
    Parses follows (expectChar c >>= after) ([c] :: tokens) b := by
  have one : Parses (fun _ => True) (expectChar c) [[c]] () := expectChar_parses visible other
  exact one.bind two fun _ _ => trivial

theorem keyword (capitals : isCapitals word = true) (two : Parses follows (next true) tokens b)
    (spaces : ∀ rest, follows rest → Spaced rest) :
    Parses follows (tryKeyword word >>= next) (word.toList :: tokens) b :=
  (tryKeyword_parses capitals).bind two
    fun rest ends => (spaces rest ends).tokens tokens

theorem expectKeyword (capitals : isCapitals word = true) (two : Parses follows (after ()) tokens b)
    (spaces : ∀ rest, follows rest → Spaced rest) :
    Parses follows (expectKeyword word >>= after) (word.toList :: tokens) b :=
  (expectKeyword_parses capitals).bind two
    fun rest ends => (spaces rest ends).tokens tokens

theorem noMark (two : Parses follows (next false) tokens b)
    (absent : ∀ rest, follows rest → Lacks [] [c] (spaced tokens ++ rest)) :
    Parses follows (tryChar c >>= next) tokens b :=
  look (tryChar_lacking (List.mem_singleton_self c)) two absent

theorem noKeyword (two : Parses follows (next false) tokens b)
    (absent : ∀ rest, follows rest → Lacks [word] [] (spaced tokens ++ rest)) :
    Parses follows (tryKeyword word >>= next) tokens b :=
  look (tryKeyword_lacking (List.mem_singleton_self word)) two absent

end Parses

/-- The reader of a level, from the loosest operators to the tightest. -/
def parserAt (nested : Parser Expression) : Nat → Parser Expression
  | 0 => connected nested
  | 1 => chain [(tryKeyword "XOR", .xor)] (chain [(tryKeyword "AND", .and)] (condition nested))
  | 2 => chain [(tryKeyword "AND", .and)] (condition nested)
  | 3 => condition nested
  | 4 => comparison nested
  | 5 => sum nested
  | 6 => product nested
  | 7 => unary nested
  | _ => primary nested

def operatorsAt : Nat → List (Parser Bool × BinaryOperator)
  | 0 => [(tryKeyword "OR", .or)]
  | 1 => [(tryKeyword "XOR", .xor)]
  | 2 => [(tryKeyword "AND", .and)]
  | 4 => comparisons
  | 5 => [(tryChar '+', .add), (tryChar '-', .sub)]
  | 6 => [(tryChar '*', .mul), (tryChar '/', .div), (tryChar '%', .mod)]
  | _ => []

/-- Levels on which operators are grouped to the left. -/
def isGrouped (k : Nat) : Bool := [0, 1, 2, 5, 6].contains k

theorem parserAt_grouped (nested : Parser Expression) {k : Nat} (grouped : isGrouped k = true) :
    parserAt nested k = chain (operatorsAt k) (parserAt nested (k + 1)) := by
  simp only [isGrouped, List.contains_iff_mem, List.mem_cons, List.not_mem_nil, or_false] at grouped
  rcases grouped with rfl | rfl | rfl | rfl | rfl <;> rfl

/-- The words that go on with an expression, with their levels. -/
def continuingWords : List (Nat × String) :=
  [(0, "OR"), (1, "XOR"), (2, "AND"), (4, "IS"), (4, "IN"), (4, "CONTAINS"), (4, "STARTS"),
    (4, "ENDS")]

/-- The marks that go on with an expression, with their levels. -/
def continuingMarks : List (Nat × Char) :=
  [(4, '<'), (4, '>'), (4, '='), (4, '!'), (5, '+'), (5, '-'), (6, '*'), (6, '/'), (6, '%'),
    (8, '('), (8, '.')]

/-- What is given for this level, or for tighter ones. -/
def fromLevel (k : Nat) (given : List (Nat × α)) : List α :=
  (given.filter fun entry => k ≤ entry.1).map (·.2)

theorem fromLevel_subset {j k : Nat} (looser : j ≤ k) (given : List (Nat × α)) :
    fromLevel k given ⊆ fromLevel j given := by
  refine List.map_subset _ fun entry member => ?_
  rw [List.mem_filter, decide_eq_true_eq] at member ⊢
  exact ⟨member.1, Nat.le_trans looser member.2⟩

/-- What may stand behind an expression of some level, which is not continued by it. -/
structure Stops (k : Nat) (rest : List Char) : Prop where
  spaces : Spaced rest
  absent : Lacks (fromLevel k continuingWords) (fromLevel k continuingMarks) rest

namespace Stops

variable {j k : Nat} {rest : List Char}

theorem mono (stops : Stops j rest) (looser : j ≤ k) : Stops k rest :=
  ⟨stops.spaces, stops.absent.imp (fromLevel_subset looser _) (fromLevel_subset looser _)⟩

theorem nil (k : Nat) : Stops k [] := by
  refine Stops.mono ⟨.inl rfl, ?_⟩ (Nat.zero_le k)
  rfl

theorem of_mark {c : Char} (closing : c ∈ [')', ']', '}', ',']) (k : Nat) (rest : List Char) :
    Stops k (' ' :: c :: rest) := by
  refine Stops.mono ⟨.inr ⟨_, rfl⟩, ?_⟩ (Nat.zero_le k)
  simp only [List.mem_cons, List.not_mem_nil, or_false] at closing
  rcases closing with rfl | rfl | rfl | rfl <;> rfl

end Stops

end PropertyGraph.Cypher

namespace PropertyGraph.BinaryOperator

open Cypher

variable {rest : List Char}

/-- Operands of an operator are not continued by it, if they are of tighter levels. -/
theorem stops (op : BinaryOperator) (spaces : Spaced rest) :
    Stops (op.level + 1) (spaced op.tokens ++ rest) := by
  refine ⟨spaces.tokens _, ?_⟩
  rcases spaces with rfl | ⟨more, rfl⟩
  · cases op <;> rfl
  · cases op <;> rfl

theorem lacks_is (op : BinaryOperator) (spaces : Spaced rest) :
    Lacks ["IS"] [] (spaced op.tokens ++ rest) := by
  rcases spaces with rfl | ⟨more, rfl⟩
  · cases op <;> rfl
  · cases op <;> rfl

theorem length_lt (op : BinaryOperator) (spaces : Spaced rest) :
    rest.length < (dropBlanks (spaced op.tokens ++ rest)).length := by
  have shown : dropBlanks (spaced op.tokens ++ rest) = (spaced op.tokens).tail ++ rest := by
    rcases spaces with rfl | ⟨more, rfl⟩
    · cases op <;> rfl
    · cases op <;> rfl
  have letters : 0 < (spaced op.tokens).tail.length := by cases op <;> decide
  rw [shown, List.length_append]
  omega

theorem parses (op : BinaryOperator) :
    Parses Spaced (firstOf (operatorsAt op.level)) op.tokens (some op) := by
  intro text rest skipped spaces
  refine ⟨rest, .refl rest, fun source => ?_⟩
  rcases spaces with rfl | ⟨more, rfl⟩
  · rcases skipped with rfl | rfl
    · cases op <;> rfl
    · cases op <;> rfl
  · rcases skipped with rfl | rfl
    · cases op <;> rfl
    · cases op <;> rfl

end PropertyGraph.BinaryOperator
