import PropertyGraph.Proofs.Cypher.Numerals

/-!
The readers of single tokens. Each of them takes one token from behind the blanks, or none, and
takes the same with a blank put in behind the token.
-/

namespace PropertyGraph.Cypher

variable {α β : Type} {p : Parser α} {a : α} {t text rest rest' : List Char} {c : Char}

/-- What stood behind a token, with a blank and more put into it. If the token is none at all, what
comes next is another one, which stays as it is. -/
inductive Widened (t rest : List Char) : List Char → Prop
  | behind {rest' : List Char} (some_ : t ≠ []) (parted : Parted rest rest') : Widened t rest rest'
  | inside {front back more : List Char} {c : Char} (some_ : front ≠ [])
      (same : rest = front ++ back) (blank : Text.isBlank c = true)
      (closed : front.all Char.isAlpha = true → back.head?.any isWordPart = false) :
      Widened t rest (front ++ c :: more)

namespace Widened

theorem parted (widened : Widened t rest rest') : Parted rest rest' := by
  cases widened with
  | behind _ parted => exact parted
  | inside _ same blank _ => exact .intro same blank

theorem head_eq (widened : Widened [] rest rest') : rest'.head? = rest.head? := by
  cases widened with
  | behind some_ => exact absurd rfl some_
  | @inside front back more c some_ same =>
      obtain ⟨d, front, rfl⟩ := List.exists_cons_of_ne_nil some_
      rw [same]
      rfl

theorem of_laid {front : Layout} {padding : List Char} (laid : Laid front rest)
    (front_ : front ≠ []) (some_ : rest ≠ []) (pads : IsPadding padding)
    (shown : dropBlanks (front.chars ++ rest) = front.chars ++ rest) :
    Widened t (front.chars ++ rest) (front.chars ++ (padding ++ rest)) := by
  have letters := laid.chars_ne_nil front_
  have closed : front.chars.all Char.isAlpha = true → rest.head?.any isWordPart = false := by
    rcases laid.look some_ with hidden | ⟨found, _, shows, closed⟩
    · have shorter := length_dropBlanks rest
      rw [← hidden rest, shown, List.length_append] at shorter
      exact absurd (List.eq_nil_of_length_eq_zero (by omega)) letters
    · have same := shows rest (.inl rfl)
      rw [shown] at same
      exact List.append_cancel_right same ▸ closed
  obtain ⟨blank, _⟩ := pads
  exact .inside letters rfl blank closed

end Widened

/-- The parser takes this token from behind the blanks, whatever is put in behind it. -/
structure TakesToken (p : Parser α) (t : List Char) (a : α) (rest : List Char) : Prop where
  closed : t ≠ [] → t.all Char.isAlpha = true → rest.head?.any isWordPart = false
  stays : ∀ rest', Widened t rest rest' → ∀ text, dropBlanks text = t ++ rest' →
    Takes p text a rest'

/-- Whether something that is accepted comes next. -/
def look (accept : Char → Bool) : Parser Bool := do
  skipBlanks
  return (← peek).any accept

def number? : Parser (Option Value) := do
  if ← look isDigit then return some (← number) else return none

/-- What is neither a letter nor skipped. -/
def isSymbol (c : Char) : Bool := !c.isAlpha && !Text.isBlank c

/-- The readers of single tokens. -/
inductive Lexer : {α : Type} → Parser α → Prop
  | look (accept : Char → Bool) : Lexer (look accept)
  | char {c : Char} (mark : c.isAlpha = false) : Lexer (tryChar c)
  | mark {c : Char} {m : List Char} (symbols : (c :: m).all isSymbol = true) :
      Lexer (tryMark (c :: m))
  | keyword {word : String} (capitals : isCapitals word = true) : Lexer (tryKeyword word)
  | name : Lexer name
  | string : Lexer string?
  | number : Lexer number?
  | length : Lexer length

/-- A token that is found is the same one whatever stands in front of it and follows it. -/
def Lexes (p : Parser α) : Prop :=
  ∀ text a rest, Takes p text a rest → ∃ t, dropBlanks text = t ++ rest ∧ TakesToken p t a rest

/-- Where no token is found, none is found either with a blank put into what comes next. -/
theorem lexes_nothing {b : α} (Absent : List Char → Prop) (taken : Takes p text a rest)
    (absent : ∀ text, Absent (dropBlanks text) → Takes p text b (dropBlanks text))
    (widens : ∀ rest rest', Widened [] rest rest' → Absent rest → Absent rest')
    (here : Absent (dropBlanks text)) :
    ∃ t, dropBlanks text = t ++ rest ∧ TakesToken p t a rest := by
  obtain ⟨rfl, rfl⟩ := taken.unique (absent text here)
  refine ⟨[], rfl, fun none_ => absurd rfl none_, fun rest' widened text' shown => ?_⟩
  rw [List.nil_append] at shown
  have still := widens _ _ widened here
  rw [← shown] at still
  exact shown ▸ absent text' still

/-- What does not come next does not come next either with a blank behind what does. -/
theorem head_any_widened {accept : Char → Bool} {found : Bool} (rest rest' : List Char)
    (widened : Widened [] rest rest') (here : rest.head?.any accept = found) :
    rest'.head?.any accept = found := by
  rwa [widened.head_eq]

theorem look_steady (accept : Char → Bool) : Steady (look accept) :=
  skipBlanks_steady.bind fun _ => peek_steady.bind fun _ => .pure _

theorem look_takes (accept : Char → Bool) (text : List Char) :
    Takes (look accept) text ((dropBlanks text).head?.any accept) (dropBlanks text) := fun _ => rfl

theorem look_lexes (accept : Char → Bool) : Lexes (look accept) := by
  intro text a rest taken
  exact lexes_nothing (fun rest => rest.head?.any accept = (dropBlanks text).head?.any accept) taken
    (fun text' same => same ▸ look_takes accept text') head_any_widened rfl

theorem tryChar_lexes (mark : c.isAlpha = false) : Lexes (tryChar c) := by
  intro text a rest taken
  by_cases here : (dropBlanks text).head? = some c
  · obtain ⟨more, shown⟩ := List.head?_eq_some_iff.mp here
    obtain ⟨rfl, rfl⟩ := taken.unique (tryChar_found shown)
    refine ⟨[c], shown, fun _ letters => ?_, fun rest' _ text' shown' => tryChar_found shown'⟩
    simp [mark] at letters
  · exact lexes_nothing (fun rest => ¬rest.head? = some c) taken
      (fun text' absent => tryChar_absent absent)
      (fun _ _ widened absent => widened.head_eq ▸ absent) here

theorem isPrefixOf_widened {m : List Char} (visible : ∀ c ∈ m, Text.isBlank c = false)
    (widened : Widened [] rest rest') (absent : m.isPrefixOf rest = false) :
    m.isPrefixOf rest' = false := by
  rw [← Bool.not_eq_true, List.isPrefixOf_iff_prefix] at absent ⊢
  cases widened with
  | behind some_ => exact absurd rfl some_
  | @inside front back more c _ same blank =>
      subst same
      intro found
      -- A mark that reaches the blank has a blank in it.
      rcases List.prefix_or_prefix_of_prefix found (List.prefix_append front _) with short | long
      · exact absent (short.trans (List.prefix_append front back))
      · obtain ⟨middle, rfl⟩ := long
        rw [List.prefix_append_right_inj] at found
        cases middle with
        | nil =>
            rw [List.append_nil] at absent
            exact absent (List.prefix_append front back)
        | cons d middle =>
            obtain ⟨_, same⟩ := found
            have other := visible d (by simp)
            rw [(List.cons.inj same).1, blank] at other
            cases other

theorem tryMark_lexes {m : List Char} (symbols : (c :: m).all isSymbol = true) :
    Lexes (tryMark (c :: m)) := by
  have marks (d : Char) (member : d ∈ c :: m) : d.isAlpha = false ∧ Text.isBlank d = false := by
    have symbol := List.all_eq_true.mp symbols d member
    rwa [isSymbol, Bool.and_eq_true, Bool.not_eq_true', Bool.not_eq_true'] at symbol
  intro text a rest taken
  cases here : (c :: m).isPrefixOf (dropBlanks text) with
  | true =>
      obtain ⟨more, shown⟩ := List.isPrefixOf_iff_prefix.mp here
      obtain ⟨rfl, rfl⟩ := taken.unique (tryMark_found shown.symm)
      refine ⟨c :: m, shown.symm, fun _ letters => ?_, fun rest' _ text' shown' =>
        tryMark_found shown'⟩
      rw [List.all_cons, (marks c List.mem_cons_self).1] at letters
      cases letters
  | false =>
      exact lexes_nothing (fun rest => (c :: m).isPrefixOf rest = false) taken
        (fun text' absent => tryMark_absent absent)
        (fun _ _ => isPrefixOf_widened fun d member => (marks d member).2) here

/-- A keyword is so many characters, behind which no word goes on. -/
theorem afterKeyword?_split {word : List Char} (found : afterKeyword? word text = some rest) :
    ∃ t, text = t ++ rest ∧ t.length = word.length ∧ rest.head?.any isWordPart = false ∧
      ∀ rest', rest'.head?.any isWordPart = false →
        afterKeyword? word (t ++ rest') = some rest' := by
  induction word generalizing text with
  | nil =>
      rw [afterKeyword?] at found
      split at found
      · cases found
      · next ends =>
          cases found
          refine ⟨[], rfl, rfl, eq_false_of_ne_true ends, fun rest' ends => ?_⟩
          rw [List.nil_append, afterKeyword?, ends]
          rfl
  | cons k word ih =>
      cases text with
      | nil => cases found
      | cons d text =>
          rw [afterKeyword?] at found
          split at found
          · next same =>
              obtain ⟨t, rfl, long, ends, again⟩ := ih found
              refine ⟨d :: t, rfl, congrArg (· + 1) long, ends, fun rest' ends => ?_⟩
              rw [List.cons_append, afterKeyword?, if_pos same]
              exact again rest' ends
          · cases found

theorem isAlpha_of_toUpper {k : Char} (low : 65 ≤ k.toNat) (high : k.toNat < 91)
    (same : c.toUpper = k) : c.isAlpha = true := by
  unfold Char.toUpper at same
  split at same
  · next lower =>
      refine (Bool.or_eq_true _ _).mpr (.inr ?_)
      exact (Bool.and_eq_true _ _).mpr ⟨decide_eq_true lower.1, decide_eq_true lower.2⟩
  · subst same
    exact of_codes (P := fun c => c.isAlpha = true) (by decide) low high

/-- A keyword that is not there is there with a blank inside only if a longer word was there. -/
theorem afterKeyword?_widened {word front back more : List Char}
    (capitals : ∀ k ∈ word, 65 ≤ k.toNat ∧ k.toNat < 91) (blank : Text.isBlank c = true)
    (closed : front.all Char.isAlpha = true → back.head?.any isWordPart = false)
    (absent : afterKeyword? word (front ++ back) = none) :
    afterKeyword? word (front ++ c :: more) = none := by
  induction word generalizing front with
  | nil =>
      cases front with
      | nil =>
          rw [List.nil_append, afterKeyword?, closed rfl] at absent
          cases absent
      | cons d front =>
          rw [List.cons_append, afterKeyword?] at absent ⊢
          split at absent
          · next part => exact if_pos part
          · cases absent
  | cons k word ih =>
      obtain ⟨⟨low, high⟩, others⟩ := List.forall_mem_cons.mp capitals
      cases front with
      | nil =>
          -- The blank stands where a capital is looked for.
          rw [List.nil_append, afterKeyword?, if_neg]
          intro same
          have part := isWordPart_of_isAlpha (isAlpha_of_toUpper low high same)
          rw [visible_of_isWordPart c part] at blank
          cases blank
      | cons d front =>
          rw [List.cons_append, afterKeyword?] at absent ⊢
          split at absent
          · next same =>
              rw [if_pos same]
              refine ih others (fun all => closed ?_) absent
              rw [List.all_cons, isAlpha_of_toUpper low high same, all]
              rfl
          · next other => rw [if_neg other]

theorem tryKeyword_lexes {word : String} (capitals : isCapitals word = true) :
    Lexes (tryKeyword word) := by
  intro text a rest taken
  cases here : afterKeyword? word.toList (dropBlanks text) with
  | some more =>
      obtain ⟨rfl, rfl⟩ := taken.unique (tryKeyword_found here)
      obtain ⟨t, shown, _, ends, again⟩ := afterKeyword?_split here
      refine ⟨t, shown, fun _ _ => ends, fun rest' widened text' shown' => ?_⟩
      refine tryKeyword_found ?_
      rw [shown']
      exact again rest' (widened.parted.head_any visible_of_isWordPart ends)
  | none =>
      refine lexes_nothing (fun rest => afterKeyword? word.toList rest = none) taken
        (fun text' absent => tryKeyword_absent absent) (fun rest rest' widened absent => ?_) here
      cases widened with
      | behind some_ => exact absurd rfl some_
      | inside _ same blank closed =>
          rw [same] at absent
          exact afterKeyword?_widened (codes_of_isCapitals capitals).2 blank closed absent

theorem name_lexes : Lexes name := by
  intro text a rest taken
  have run := taken ⟨0, []⟩
  rw [name_run] at run
  split at run
  · next more shown =>
      split at run
      · cases run
      · next tick after closed =>
          cases run
          have split := List.takeWhile_append_dropWhile (p := (· != '`')) (l := more)
          have inside : '`' ∉ more.takeWhile (· != '`') := fun member => by
            simpa using List.all_eq_true.mp List.all_takeWhile _ member
          have ends := head_dropWhile (· != '`') more
          rw [closed] at split ends
          obtain rfl : tick = '`' := by simpa using ends
          have plain : '`' ∉ (String.ofList (more.takeWhile (· != '`'))).toList := by
            rwa [String.toList_ofList]
          refine ⟨escapedName (String.ofList (more.takeWhile (· != '`'))), ?_,
            fun _ letters => ?_, fun rest' _ text' shown' => name_escaped plain shown'⟩
          · rw [shown, escapedName, String.toList_ofList, List.cons_append, List.append_assoc]
            exact congrArg _ split.symm
          · cases letters
  · next c more other shown =>
      split at run
      · next begins =>
          cases run
          have split := List.takeWhile_append_dropWhile (p := isWordPart) (l := more)
          have parts := List.all_eq_true.mp (List.all_takeWhile (p := isWordPart) (l := more))
          have ends := head_dropWhile isWordPart more
          refine ⟨c :: more.takeWhile isWordPart, ?_, fun _ _ => ends,
            fun rest' widened text' shown' source => ?_⟩
          · rw [shown, List.cons_append, split]
          · rw [List.cons_append] at shown'
            obtain ⟨taken, left⟩ := takeWhile_append_ends parts
              (widened.parted.head_any visible_of_isWordPart ends)
            rw [name_bare begins shown' source, taken, left]
      · cases run
  · cases run

theorem string?_lexes : Lexes string? := by
  intro text a rest taken
  cases a with
  | none =>
      obtain ⟨rfl, absent⟩ := string?_none (taken ⟨0, []⟩)
      exact lexes_nothing (fun rest => rest.head?.any isQuote = false) taken
        (fun text' absent => string?_absent absent) head_any_widened absent
  | some s =>
      obtain ⟨token, literal, shown⟩ := string?_takes_iff.mp taken
      refine ⟨token, shown, fun _ letters => ?_,
        fun rest' _ text' shown' => string?_takes_iff.mpr ⟨token, literal, shown'⟩⟩
      obtain ⟨marks, _⟩ := literal
      rw [List.all_cons, Bool.and_eq_true] at letters
      rcases isQuote_cases marks with rfl | rfl <;> exact absurd letters.1 (by decide)

theorem number?_found (digit : (dropBlanks text).head?.any isDigit = true) {v : Value}
    (taken : Takes number (dropBlanks text) v rest) : Takes number? text (some v) rest := by
  refine (look_takes isDigit text).bind ?_
  rw [digit]
  exact taken.bind (.pure (some v) rest)

theorem number?_absent (absent : (dropBlanks text).head?.any isDigit = false) :
    Takes number? text none (dropBlanks text) := by
  refine (look_takes isDigit text).bind ?_
  rw [absent]
  exact .pure none (dropBlanks text)

theorem not_letters_of_digit {more : List Char} (digit : isDigit c = true) :
    (c :: more).all Char.isAlpha ≠ true := by
  intro letters
  have letter := (Bool.and_eq_true _ _).mp letters
  obtain ⟨low, high⟩ := codes_of_isDigit digit
  have other : c.isAlpha = false :=
    of_codes (P := fun c => c.isAlpha = false) (by decide) low high
  rw [other] at letter
  cases letter.1

theorem number?_lexes : Lexes number? := by
  intro text a rest taken
  cases begins : (dropBlanks text).head?.any isDigit with
  | false =>
      exact lexes_nothing (fun rest => rest.head?.any isDigit = false) taken
        (fun text' absent => number?_absent absent) head_any_widened begins
  | true =>
      obtain ⟨found, middle, looks, behind⟩ := taken.split (look_steady isDigit)
      obtain ⟨rfl, rfl⟩ := looks.unique (look_takes isDigit text)
      rw [begins, if_pos rfl] at behind
      obtain ⟨v, _, taken, last⟩ := behind.split number_steady
      obtain ⟨rfl, rfl⟩ := last.unique (.pure _ _)
      obtain ⟨power, split, again⟩ := number_split taken
      obtain ⟨c, more, shown, digit⟩ := cons_of_head_any begins
      rw [shown, List.takeWhile_cons_of_pos digit] at split again
      refine ⟨c :: (more.takeWhile isDigit ++ power), ?_, fun _ letters => ?_,
        fun rest' widened text' shown' => number?_found ?_ ?_⟩
      · rw [shown, split, List.cons_append, List.cons_append, List.append_assoc]
      · exact absurd letters (not_letters_of_digit digit)
      · rw [shown']
        exact digit
      · rw [shown', List.cons_append, List.append_assoc]
        exact again rest' widened.parted

theorem length_takes (some_ : t ≠ []) (all : ∀ c ∈ t, isDigit c = true)
    (ends : rest.head?.any isDigit = false) (fits : digitsValue t < twoTo 32)
    (shown : dropBlanks text = t ++ rest) : Takes length text (digitsValue t) rest := by
  refine (Takes.skipBlanks text).bind ?_
  rw [shown]
  refine (digits_takes all ends).bind ?_
  have valid : (t.isEmpty || decide (digitsValue t ≥ twoTo 32)) = false := by
    simp [some_, fits]
  dsimp only
  rw [valid]
  exact .pure _ rest

theorem length_lexes : Lexes length := by
  intro text a rest taken
  obtain ⟨_, middle, skipped, behind⟩ := taken.split skipBlanks_steady
  obtain ⟨_, rfl⟩ := skipped.unique (.skipBlanks text)
  obtain ⟨t, middle, first, last⟩ := behind.split digits_steady
  obtain ⟨rfl, rfl⟩ := first.unique (digits_chunk _).takes
  obtain ⟨_, split, _⟩ := digits_chunk (dropBlanks text)
  have all := List.all_eq_true.mp (List.all_takeWhile (p := isDigit) (l := dropBlanks text))
  have ends := head_dropWhile isDigit (dropBlanks text)
  generalize (dropBlanks text).takeWhile isDigit = t,
    (dropBlanks text).dropWhile isDigit = behind at *
  dsimp only at last
  split at last
  · cases last ⟨0, []⟩
  · next valid =>
      obtain ⟨rfl, rfl⟩ := last.unique (.pure _ _)
      simp only [Bool.or_eq_true, not_or, List.isEmpty_iff, decide_eq_true_eq, not_le] at valid
      refine ⟨t, split, fun some_ letters => ?_, fun rest' widened text' shown =>
        length_takes valid.1 all (widened.parted.head_any visible_of_isDigit ends) valid.2 shown⟩
      obtain ⟨c, more, rfl⟩ := List.exists_cons_of_ne_nil some_
      exact absurd letters (not_letters_of_digit (all c List.mem_cons_self))

theorem Lexer.lexes (lexer : Lexer p) : Lexes p := by
  cases lexer with
  | look accept => exact look_lexes accept
  | char mark => exact tryChar_lexes mark
  | mark symbols => exact tryMark_lexes symbols
  | keyword capitals => exact tryKeyword_lexes capitals
  | name => exact name_lexes
  | string => exact string?_lexes
  | number => exact number?_lexes
  | length => exact length_lexes

theorem Lexer.steady (lexer : Lexer p) : Steady p := by
  cases lexer with
  | look accept => exact look_steady accept
  | char => exact tryChar_steady _
  | mark => exact tryMark_steady _
  | keyword => exact tryKeyword_steady _
  | name => exact name_steady
  | string => exact string?_steady
  | number =>
      refine (look_steady isDigit).bind fun here => ?_
      split
      · exact number_steady.bind fun _ => .pure _
      · exact .pure none
  | length => exact length_steady

theorem skipBlanks_same (next : Unit → Parser α) {source : Source} {text text' : List Char}
    (same : dropBlanks text = dropBlanks text') :
    ((skipBlanks >>= next).run source).run text = ((skipBlanks >>= next).run source).run text' := by
  rw [Parser.bind_run, Parser.bind_run, Takes.skipBlanks text source, same,
    Takes.skipBlanks text' source]

theorem Lexer.same (lexer : Lexer p) {text' : List Char} (same : dropBlanks text = dropBlanks text')
    (taken : Takes p text a rest) : Takes p text' a rest := by
  intro source
  rw [← taken source]
  cases lexer with
  | number =>
      rw [number?, Cypher.look, bind_assoc]
      exact skipBlanks_same _ same.symm
  | _ => exact skipBlanks_same _ same.symm

end PropertyGraph.Cypher
