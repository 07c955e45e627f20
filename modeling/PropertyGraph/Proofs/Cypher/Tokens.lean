import Mathlib.Tactic.IntervalCases
import PropertyGraph.Proofs.Cypher.Statements

/-!
Texts as tokens with a space in front of each, and what the readers of words and marks make of them.
Every reader skips the space in front of its first token, so a text may be given to it with the
space or without; where it stops, the space of the next token may be skipped or not.
-/

namespace PropertyGraph.Cypher

variable {α β : Type}

/-- Tokens with a space in front of each. -/
def spaced (tokens : List (List Char)) : List Char := tokens.flatMap (' ' :: ·)

@[simp] theorem spaced_nil : spaced [] = [] := rfl

@[simp] theorem spaced_cons (token : List Char) (tokens : List (List Char)) :
    spaced (token :: tokens) = ' ' :: (token ++ spaced tokens) := rfl

@[simp] theorem spaced_append (first second : List (List Char)) :
    spaced (first ++ second) = spaced first ++ spaced second := List.flatMap_append

theorem length_le_spaced (tokens : List (List Char)) : tokens.length ≤ (spaced tokens).length := by
  induction tokens with
  | nil => exact Nat.le_refl 0
  | cons token tokens ih =>
      simp only [spaced_cons, List.length_cons, List.length_append]
      omega

/-- Nothing, or something behind a space. -/
def Spaced (rest : List Char) : Prop := rest = [] ∨ ∃ more, rest = ' ' :: more

namespace Spaced

variable {rest : List Char}

theorem tokens (tokens : List (List Char)) (spaces : Spaced rest) :
    Spaced (spaced tokens ++ rest) := by
  cases tokens with
  | nil => exact spaces
  | cons token tokens => exact .inr ⟨_, rfl⟩

theorem takeWhile {accept : Char → Bool} (space : accept ' ' = false) (spaces : Spaced rest)
    {text : List Char} (accepted : ∀ c ∈ text, accept c = true) :
    (text ++ rest).takeWhile accept = text ∧ (text ++ rest).dropWhile accept = rest := by
  rw [List.takeWhile_append_of_pos accepted, List.dropWhile_append_of_pos accepted]
  rcases spaces with rfl | ⟨more, rfl⟩
  · exact ⟨List.append_nil _, rfl⟩
  · rw [List.takeWhile_cons_of_neg (by simp [space]), List.dropWhile_cons_of_neg (by simp [space])]
    exact ⟨List.append_nil _, rfl⟩

end Spaced

/-- A text whose blanks in front may have been skipped. -/
def Skipped (text rest : List Char) : Prop := rest = text ∨ rest = dropBlanks text

namespace Skipped

variable {text rest : List Char}

theorem refl (text : List Char) : Skipped text text := .inl rfl

theorem blanks (text : List Char) : Skipped text (dropBlanks text) := .inr rfl

theorem dropBlanks_eq (skipped : Skipped text rest) : dropBlanks rest = dropBlanks text := by
  rcases skipped with rfl | rfl
  · rfl
  · exact dropBlanks_dropBlanks text

end Skipped

/-- From every source, the parser reads this from the text, and leaves the rest. -/
def Takes (p : Parser α) (text : List Char) (a : α) (rest : List Char) : Prop :=
  ∀ source, (p.run source).run text = .ok (a, rest)

namespace Takes

variable {p : Parser α} {next : α → Parser β} {a : α} {b : β} {text middle rest : List Char}

theorem pure (a : α) (text : List Char) : Takes (Pure.pure a) text a text := fun _ => rfl

theorem bind (first : Takes p text a middle) (second : Takes (next a) middle b rest) :
    Takes (p >>= next) text b rest := by
  intro source
  rw [Parser.bind_run, first source]
  exact second source

theorem skipBlanks (text : List Char) : Takes skipBlanks text () (dropBlanks text) := fun _ => rfl

end Takes

/-- Where this may follow, the parser reads this from the tokens. -/
def Parses (follows : List Char → Prop) (p : Parser α) (tokens : List (List Char)) (a : α) :
    Prop :=
  ∀ text rest, Skipped (spaced tokens ++ rest) text → follows rest →
    ∃ after, Skipped rest after ∧ Takes p text a after

namespace Parses

variable {follows before : List Char → Prop} {p : Parser α} {next : α → Parser β} {a : α} {b : β}
  {tokens first second : List (List Char)}

theorem pure (a : α) : Parses follows (Pure.pure a) [] a :=
  fun text _ skipped _ => ⟨text, skipped, .pure a text⟩

theorem bind (one : Parses before p first a) (two : Parses follows (next a) second b)
    (fits : ∀ rest, follows rest → before (spaced second ++ rest)) :
    Parses follows (p >>= next) (first ++ second) b := by
  intro text rest skipped ends
  rw [spaced_append, List.append_assoc] at skipped
  obtain ⟨middle, between, taken⟩ := one text _ skipped (fits rest ends)
  obtain ⟨after, behind, takenNext⟩ := two middle rest between ends
  exact ⟨after, behind, taken.bind takenNext⟩

theorem look (one : Parses before p [] a) (two : Parses follows (next a) tokens b)
    (fits : ∀ rest, follows rest → before (spaced tokens ++ rest)) :
    Parses follows (p >>= next) tokens b := one.bind two fits

theorem last {f : α → β} (one : Parses follows p tokens a)
    (same : next = fun a => Pure.pure (f a)) : Parses follows (p >>= next) tokens (f a) := by
  subst same
  rw [← List.append_nil tokens]
  exact one.bind (.pure (f a)) fun _ ends => ends

theorem weaken (one : Parses before p tokens a) (fits : ∀ rest, follows rest → before rest) :
    Parses follows p tokens a :=
  fun text rest skipped ends => one text rest skipped (fits rest ends)

theorem of_get {next : List Char → Parser β}
    (parses : ∀ text rest, Skipped (spaced tokens ++ rest) text → follows rest →
      ∃ after, Skipped rest after ∧ Takes (next text) text b after) :
    Parses follows (get >>= next) tokens b := parses

theorem of_ahead {P : List Char → Prop}
    (looks : ∀ text, P (dropBlanks text) → Takes p text a (dropBlanks text)) :
    Parses (fun rest => P (dropBlanks rest)) p [] a := by
  intro text rest skipped here
  have same : dropBlanks text = dropBlanks rest := skipped.dropBlanks_eq
  exact ⟨dropBlanks text, .inr same, looks text (same ▸ here)⟩

end Parses

theorem dropBlanks_visible {c : Char} (visible : Text.isBlank c = false) (other : c ≠ '/')
    (rest : List Char) : dropBlanks (c :: rest) = c :: rest := by
  rw [dropBlanks, visible]
  · rfl
  · exact fun _ same => absurd same other
  · exact fun _ same => absurd same other

section Marks

variable {c : Char} {text rest : List Char}

theorem tryChar_run (c : Char) (source : Source) (text : List Char) :
    ((tryChar c).run source).run text =
      if (dropBlanks text).head? == some c then .ok (true, (dropBlanks text).tail)
      else .ok (false, dropBlanks text) := by
  have whole : ((tryChar c).run source).run text =
      ((if (dropBlanks text).head? == some c then do
          advance
          return true
        else return false : Parser Bool).run source).run (dropBlanks text) := rfl
  rw [whole]
  split <;> rfl

theorem tryChar_found (found : dropBlanks text = c :: rest) :
    Takes (tryChar c) text true rest := by
  intro source
  rw [tryChar_run, found, List.head?_cons, if_pos (beq_self_eq_true _), List.tail_cons]

theorem tryChar_absent (absent : (dropBlanks text).head? ≠ some c) :
    Takes (tryChar c) text false (dropBlanks text) := by
  intro source
  rw [tryChar_run, if_neg (by simpa using absent)]

theorem expectChar_found (found : dropBlanks text = c :: rest) :
    Takes (expectChar c) text () rest :=
  (tryChar_found found).bind (.pure () rest)

theorem tryMark_run (mark : List Char) (source : Source) (text : List Char) :
    ((tryMark mark).run source).run text =
      if mark.isPrefixOf (dropBlanks text) then .ok (true, (dropBlanks text).drop mark.length)
      else .ok (false, dropBlanks text) := by
  have whole : ((tryMark mark).run source).run text =
      ((if mark.isPrefixOf (dropBlanks text) then do
          set ((dropBlanks text).drop mark.length)
          return true
        else return false : Parser Bool).run source).run (dropBlanks text) := rfl
  rw [whole]
  split <;> rfl

theorem tryMark_found {mark : List Char} (found : dropBlanks text = mark ++ rest) :
    Takes (tryMark mark) text true rest := by
  intro source
  rw [tryMark_run, found, if_pos (by simp), List.drop_left]

theorem tryMark_absent {mark : List Char} (absent : mark.isPrefixOf (dropBlanks text) = false) :
    Takes (tryMark mark) text false (dropBlanks text) := by
  intro source
  rw [tryMark_run, absent]
  rfl

theorem tryKeyword_found {word : String}
    (found : afterKeyword? word.toList (dropBlanks text) = some rest) :
    Takes (tryKeyword word) text true rest := by
  intro source
  rw [tryKeyword_eq, found]

theorem tryKeyword_absent {word : String}
    (absent : afterKeyword? word.toList (dropBlanks text) = none) :
    Takes (tryKeyword word) text false (dropBlanks text) := by
  intro source
  rw [tryKeyword_eq, absent]

theorem expectKeyword_found {word : String}
    (found : afterKeyword? word.toList (dropBlanks text) = some rest) :
    Takes (expectKeyword word) text () rest :=
  (tryKeyword_found found).bind (.pure () rest)

end Marks

section Words

variable {rest : List Char}

theorem afterKeyword?_word {word : List Char} (capitals : ∀ c ∈ word, c.toUpper = c)
    (spaces : Spaced rest) : afterKeyword? word (word ++ rest) = some rest := by
  induction word with
  | nil =>
      have ends : (rest.head?).any isWordPart = false := by
        rcases spaces with rfl | ⟨more, rfl⟩
        · rfl
        · rfl
      rw [List.nil_append, afterKeyword?, ends]
      rfl
  | cons k word ih =>
      rw [List.cons_append, afterKeyword?, if_pos (capitals k List.mem_cons_self)]
      exact ih fun c member => capitals c (List.mem_cons_of_mem _ member)

/-- Where a word is taken for a keyword, it is the keyword but for capitals. -/
theorem eq_of_afterKeyword? {keyword word after : List Char}
    (parts : ∀ c ∈ word, isWordPart c = true) (letters : ' ' ∉ keyword) (spaces : Spaced rest)
    (found : afterKeyword? keyword (word ++ rest) = some after) :
    word.map Char.toUpper = keyword := by
  induction keyword generalizing word with
  | nil =>
      cases word with
      | nil => rfl
      | cons c word =>
          rw [afterKeyword?, List.cons_append, List.head?_cons, Option.any_some,
            if_pos (parts c List.mem_cons_self)] at found
          cases found
  | cons k keyword ih =>
      rw [List.mem_cons, not_or] at letters
      cases word with
      | nil =>
          rcases spaces with rfl | ⟨more, rfl⟩
          · cases found
          · rw [List.nil_append, afterKeyword?, if_neg] at found
            · cases found
            · exact letters.1
      | cons c word =>
          rw [List.cons_append, afterKeyword?] at found
          split at found
          · next same =>
              rw [List.map_cons, same,
                ih (fun d member => parts d (List.mem_cons_of_mem _ member)) letters.2 found]
          · cases found

end Words

def beginsBare (c : Char) : Bool := Text.isLetter c || c = '_'

/-- A letter or an underscore, and letters, digits and underscores behind it. -/
def isBareName (name : String) : Bool :=
  match name.toList with
  | [] => false
  | c :: rest => beginsBare c && rest.all isWordPart

def isLiteralWord (name : String) : Bool :=
  ["TRUE", "FALSE", "NULL"].any fun word => name.toList.map Char.toUpper == word.toList

theorem of_codes {P : Char → Prop} {low high : Nat}
    (codes : ∀ n < high, low ≤ n → P (Char.ofNat n)) {c : Char} (least : low ≤ c.toNat)
    (greatest : c.toNat < high) : P c := by
  have code := codes c.toNat greatest least
  rwa [Char.ofNat_toNat] at code

theorem sideOf_cases {first second n : Nat} {more : Text.Boundaries}
    (inside : Text.Boundaries.sideOf false (first :: second :: more) n = true) :
    (first ≤ n ∧ n < second) ∨ Text.Boundaries.sideOf false more n = true := by
  rw [Text.Boundaries.sideOf, Text.Boundaries.sideOf] at inside
  split at inside
  · cases inside
  · split at inside
    · exact .inl (by omega)
    · exact .inr inside

def blankCodes : List Nat :=
  [133, 160, 5760, 8192, 8193, 8194, 8195, 8196, 8197, 8198, 8199, 8200, 8201, 8202, 8232, 8233,
    8239, 8287, 12288]

theorem mem_blankCodes {n : Nat} (beyond : 128 ≤ n)
    (blank : Text.whiteSpace.sideOf false n = true) : n ∈ blankCodes := by
  simp only [blankCodes, List.mem_cons]
  iterate 10
    rcases sideOf_cases blank with _ | blank
    · omega
  cases blank

theorem ne_of_beginsBare {c d : Char} (begins : beginsBare c = true)
    (other : beginsBare d = false) : c ≠ d := by
  rintro rfl
  rw [begins] at other
  cases other

theorem isWordPart_of_beginsBare {c : Char} (begins : beginsBare c = true) :
    isWordPart c = true := by
  rcases (Bool.or_eq_true _ _).mp begins with letter | underscore
  · refine (Bool.or_eq_true _ _).mpr (.inl ?_)
    unfold Text.isLetter at letter
    unfold Text.isLetterOrNumber
    split
    · next ascii =>
        rw [if_pos ascii] at letter
        rw [Char.isAlphanum, letter]
        rfl
    · next high =>
        rw [if_neg high] at letter
        rw [letter]
        rfl
  · exact (Bool.or_eq_true _ _).mpr (.inr underscore)

theorem isBlank_of_isWordPart {c : Char} (part : isWordPart c = true) : Text.isBlank c = false := by
  by_cases ascii : c.toNat < 128
  · have parts : isWordPart c = true → Text.isBlank c = false :=
      of_codes (P := fun c => isWordPart c = true → Text.isBlank c = false) (by decide)
        (Nat.zero_le _) ascii
    exact parts part
  · apply eq_false_of_ne_true
    intro blank
    rw [Text.isBlank, if_neg ascii] at blank
    rcases (Bool.or_eq_true _ _).mp part with character | underscore
    · rw [Text.isLetterOrNumber, if_neg ascii] at character
      have apart : ∀ n ∈ blankCodes, (Text.alphabetic.sideOf false n ||
          Text.numeric.sideOf false n) = false := by decide +kernel
      exact absurd character (Bool.eq_false_iff.mp (apart _ (mem_blankCodes (by omega) blank)))
    · rw [of_decide_eq_true underscore] at ascii
      exact absurd ascii (by decide)

theorem isBlank_of_beginsBare {c : Char} (begins : beginsBare c = true) :
    Text.isBlank c = false := isBlank_of_isWordPart (isWordPart_of_beginsBare begins)

theorem isBareName_cases {name : String} (plain : isBareName name = true) :
    ∃ c rest, name.toList = c :: rest ∧ beginsBare c = true ∧ ∀ d ∈ rest, isWordPart d = true := by
  unfold isBareName at plain
  split at plain
  · cases plain
  · next c rest same =>
      obtain ⟨begins, parts⟩ := (Bool.and_eq_true _ _).mp plain
      exact ⟨c, rest, same, begins, List.all_eq_true.mp parts⟩

/-- Begins with something that is not skipped. -/
def Visible (token : List Char) : Prop :=
  ∃ c more, token = c :: more ∧ Text.isBlank c = false ∧ c ≠ '/'

theorem Visible.of_head {c : Char} (visible : Text.isBlank c = false) (other : c ≠ '/')
    (more : List Char) : Visible (c :: more) := ⟨c, more, rfl, visible, other⟩

theorem Visible.of_name {name : String} (plain : isBareName name = true) :
    Visible name.toList := by
  obtain ⟨c, rest, same, begins, _⟩ := isBareName_cases plain
  rw [same]
  exact .of_head (isBlank_of_beginsBare begins) (ne_of_beginsBare begins (by decide)) rest

theorem Visible.dropBlanks_eq {token : List Char} (visible : Visible token) (rest : List Char) :
    dropBlanks (' ' :: (token ++ rest)) = token ++ rest := by
  obtain ⟨c, more, rfl, shown, other⟩ := visible
  exact dropBlanks_visible shown other _

/-- A word of capital letters alone, as keywords are given. -/
def isCapitals (word : String) : Bool :=
  !word.toList.isEmpty && word.toList.all fun c => 65 ≤ c.toNat && c.toNat ≤ 90

theorem codes_of_isCapitals {word : String} (capitals : isCapitals word = true) :
    word.toList ≠ [] ∧ ∀ c ∈ word.toList, 65 ≤ c.toNat ∧ c.toNat < 91 := by
  obtain ⟨letters, capital⟩ := (Bool.and_eq_true _ _).mp capitals
  refine ⟨by simpa using letters, fun c member => ?_⟩
  have inside := List.all_eq_true.mp capital c member
  rw [Bool.and_eq_true, decide_eq_true_eq, decide_eq_true_eq] at inside
  omega

theorem isCapitals_cases {word : String} (capitals : isCapitals word = true) :
    (∀ c ∈ word.toList, c.toUpper = c) ∧ Visible word.toList := by
  obtain ⟨letters, codes⟩ := codes_of_isCapitals capitals
  have each (c : Char) (member : c ∈ word.toList) :
      c.toUpper = c ∧ Text.isBlank c = false ∧ c ≠ '/' :=
    of_codes (P := fun c => c.toUpper = c ∧ Text.isBlank c = false ∧ c ≠ '/') (by decide)
      (codes c member).1 (codes c member).2
  refine ⟨fun c member => (each c member).1, ?_⟩
  obtain ⟨c, more, same⟩ := List.exists_cons_of_ne_nil letters
  have first := each c (same ▸ List.mem_cons_self)
  rw [same]
  exact .of_head first.2.1 first.2.2 more

theorem isBareName_of_isCapitals {word : String} (capitals : isCapitals word = true) :
    isBareName word = true := by
  obtain ⟨letters, codes⟩ := codes_of_isCapitals capitals
  have each (c : Char) (member : c ∈ word.toList) : beginsBare c = true :=
    of_codes (P := fun c => beginsBare c = true) (by decide) (codes c member).1 (codes c member).2
  obtain ⟨c, more, same⟩ := List.exists_cons_of_ne_nil letters
  rw [same] at each
  rw [isBareName, same]
  refine (Bool.and_eq_true _ _).mpr ⟨each c List.mem_cons_self, List.all_eq_true.mpr ?_⟩
  intro d member
  exact isWordPart_of_beginsBare (each d (List.mem_cons_of_mem _ member))

theorem space_of_isCapitals {word : String} (capitals : isCapitals word = true) :
    ' ' ∉ word.toList := by
  intro member
  have low : 65 ≤ ' '.toNat := ((codes_of_isCapitals capitals).2 ' ' member).1
  exact absurd low (by decide)

theorem Skipped.first {token : List Char} {tokens : List (List Char)} {text rest : List Char}
    (skipped : Skipped (spaced (token :: tokens) ++ rest) text) (visible : Visible token) :
    dropBlanks text = token ++ (spaced tokens ++ rest) := by
  rw [skipped.dropBlanks_eq, spaced_cons, List.cons_append, List.append_assoc]
  exact visible.dropBlanks_eq _

/-- There is a first token, and it is not skipped. -/
def Begins (tokens : List (List Char)) : Prop :=
  ∃ token more, tokens = token :: more ∧ Visible token

theorem Begins.append {tokens : List (List Char)} (begins : Begins tokens)
    (others : List (List Char)) : Begins (tokens ++ others) := by
  obtain ⟨token, more, rfl, visible⟩ := begins
  exact ⟨token, more ++ others, rfl, visible⟩

theorem Begins.length_le {tokens : List (List Char)} {text rest : List Char}
    (begins : Begins tokens) (skipped : Skipped (spaced tokens ++ rest) text) :
    tokens.length ≤ text.length := by
  obtain ⟨token, more, rfl, visible⟩ := begins
  have shown := congrArg List.length (skipped.first visible)
  have short := length_dropBlanks text
  have many := length_le_spaced more
  obtain ⟨c, others, rfl, _⟩ := visible
  simp only [List.length_append, List.length_cons] at shown ⊢
  omega

section Tokens

variable {follows : List Char → Prop}

/-- A name without backticks is taken up to the first character that is no part of a word. -/
theorem name_bare {c : Char} {text rest : List Char} (begins : beginsBare c = true)
    (found : dropBlanks text = c :: rest) (source : Source) :
    (Cypher.name.run source).run text =
      .ok (String.ofList (c :: rest.takeWhile isWordPart), rest.dropWhile isWordPart) := by
  have starts : (Text.isLetter c || decide (c = '_')) = true := begins
  have other : c ≠ '`' := ne_of_beginsBare begins (by decide)
  unfold Cypher.name
  simp only [ReaderT.run_bind, StateT.run_bind]
  rw [show (skipBlanks.run source).run text = .ok ((), c :: rest) from found ▸ rfl]
  change ((_ : Parser String).run source).run (c :: rest) = _
  split
  · next quote => exact absurd (List.cons.inj quote).1 other
  · next d others _ first =>
      obtain ⟨rfl, rfl⟩ := List.cons.inj first
      rw [if_pos starts]
      rfl
  · next nothing => cases nothing

theorem name_parses {name : String} (plain : isBareName name = true) :
    Parses Spaced Cypher.name [name.toList] name := by
  intro text rest skipped spaces
  have found := skipped.first (.of_name plain)
  obtain ⟨c, more, same, begins, parts⟩ := isBareName_cases plain
  refine ⟨rest, .refl rest, fun source => ?_⟩
  rw [same, spaced_nil, List.nil_append, List.cons_append] at found
  obtain ⟨taken, left⟩ := spaces.takeWhile (by decide) parts
  rw [name_bare begins found source, taken, left, ← same, String.ofList_toList]

theorem tryChar_parses {c : Char} (visible : Text.isBlank c = false) (other : c ≠ '/') :
    Parses follows (tryChar c) [[c]] true :=
  fun _ rest skipped _ =>
    ⟨rest, .refl rest, tryChar_found (skipped.first (.of_head visible other []))⟩

theorem expectChar_parses {c : Char} (visible : Text.isBlank c = false) (other : c ≠ '/') :
    Parses follows (expectChar c) [[c]] () :=
  fun _ rest skipped _ =>
    ⟨rest, .refl rest, expectChar_found (skipped.first (.of_head visible other []))⟩

theorem tryMark_parses {mark : List Char} (visible : Visible mark) :
    Parses follows (tryMark mark) [mark] true :=
  fun _ rest skipped _ => ⟨rest, .refl rest, tryMark_found (skipped.first visible)⟩

theorem tryChar_misses (c : Char) :
    Parses (fun rest => (dropBlanks rest).head? ≠ some c) (tryChar c) [] false :=
  .of_ahead (P := fun shown => shown.head? ≠ some c) fun _ absent => tryChar_absent absent

theorem tryMark_misses (mark : List Char) :
    Parses (fun rest => mark.isPrefixOf (dropBlanks rest) = false) (tryMark mark) [] false :=
  .of_ahead (P := fun shown => mark.isPrefixOf shown = false) fun _ absent =>
    tryMark_absent absent

theorem tryKeyword_misses (word : String) :
    Parses (fun rest => afterKeyword? word.toList (dropBlanks rest) = none) (tryKeyword word) []
      false :=
  .of_ahead (P := fun shown => afterKeyword? word.toList shown = none) fun _ absent =>
    tryKeyword_absent absent

theorem tryKeyword_parses {word : String} (capitals : isCapitals word = true) :
    Parses Spaced (tryKeyword word) [word.toList] true := by
  intro text rest skipped spaces
  obtain ⟨upper, visible⟩ := isCapitals_cases capitals
  have found := skipped.first visible
  rw [spaced_nil, List.nil_append] at found
  exact ⟨rest, .refl rest, tryKeyword_found (by rw [found, afterKeyword?_word upper spaces])⟩

theorem expectKeyword_parses {word : String} (capitals : isCapitals word = true) :
    Parses Spaced (expectKeyword word) [word.toList] () := by
  intro text rest skipped spaces
  obtain ⟨upper, visible⟩ := isCapitals_cases capitals
  have found := skipped.first visible
  rw [spaced_nil, List.nil_append] at found
  exact ⟨rest, .refl rest, expectKeyword_found (by rw [found, afterKeyword?_word upper spaces])⟩

end Tokens

def escaped (c : Char) : List Char :=
  if c = '\\' || c = '\'' then ['\\', c]
  else if c = '\n' then ['\\', 'n']
  else if c = '\t' then ['\\', 't']
  else if c = '\r' then ['\\', 'r']
  else [c]

def quoted (s : String) : List Char := '\'' :: (s.toList.flatMap escaped ++ ['\''])

/-- What stands between two quotes, and the text that it is read as: any character but the quote and
the backslash stands for itself, and behind a backslash there is any character. -/
inductive Encloses (quote : Char) : List Char → List Char → Prop
  | nil : Encloses quote [] []
  | plain {c : Char} {body text : List Char} (inside : c ≠ quote) (bare : c ≠ '\\')
      (more : Encloses quote body text) : Encloses quote (c :: body) (c :: text)
  | escape {body text : List Char} (c : Char) (more : Encloses quote body text) :
      Encloses quote ('\\' :: c :: body) (unescaped c :: text)

namespace Encloses

variable {quote : Char} {input body text rest : List Char}

theorem stringBody_append (encloses : Encloses quote body text) (slash : quote ≠ '\\')
    (rest : List Char) : stringBody quote (body ++ quote :: rest) = some (text, rest) := by
  induction encloses with
  | nil =>
      rw [List.nil_append, stringBody.eq_def]
      exact if_pos rfl
  | plain inside bare _ ih =>
      rw [List.cons_append, stringBody.eq_def]
      simp [inside, bare, ih]
  | escape c _ ih =>
      rw [List.cons_append, List.cons_append, stringBody.eq_def]
      simp [slash.symm, ih]

theorem of_stringBody (found : stringBody quote input = some (text, rest)) :
    ∃ body, input = body ++ quote :: rest ∧ Encloses quote body text := by
  fun_induction stringBody quote input generalizing text with
  | case1 => cases found
  | case2 more =>
      cases found
      exact ⟨[], rfl, .nil⟩
  | case3 => cases found
  | case4 e more _ ih =>
      obtain ⟨⟨inside, after⟩, found, same⟩ := Option.map_eq_some_iff.mp found
      cases same
      obtain ⟨body, rfl, encloses⟩ := ih found
      exact ⟨'\\' :: e :: body, rfl, .escape e encloses⟩
  | case5 c more other bare ih =>
      obtain ⟨⟨inside, after⟩, found, same⟩ := Option.map_eq_some_iff.mp found
      cases same
      obtain ⟨body, rfl, encloses⟩ := ih found
      exact ⟨c :: body, rfl, .plain other bare encloses⟩

end Encloses

/-- A string with quotes of one kind around it, in any of the ways to write it. -/
inductive IsLiteral : List Char → String → Prop
  | intro {quote : Char} {body : List Char} {s : String} (marks : isQuote quote = true)
      (encloses : Encloses quote body s.toList) : IsLiteral (quote :: (body ++ [quote])) s

theorem isQuote_cases {quote : Char} (marks : isQuote quote = true) :
    quote = '"' ∨ quote = '\'' := by
  simpa [isQuote] using marks

theorem isQuote_ne_backslash {quote : Char} (marks : isQuote quote = true) : quote ≠ '\\' := by
  rcases isQuote_cases marks with rfl | rfl <;> decide

theorem encloses_escaped (c : Char) {body text : List Char} (more : Encloses '\'' body text) :
    Encloses '\'' (escaped c ++ body) (c :: text) := by
  unfold escaped
  split
  · next special =>
      rcases (Bool.or_eq_true _ _).mp special with same | same
      · rw [of_decide_eq_true same]
        exact .escape '\\' more
      · rw [of_decide_eq_true same]
        exact .escape '\'' more
  · next plain =>
      split
      · next same =>
          subst same
          exact .escape 'n' more
      split
      · next same =>
          subst same
          exact .escape 't' more
      split
      · next same =>
          subst same
          exact .escape 'r' more
      · rw [Bool.or_eq_true, decide_eq_true_eq, decide_eq_true_eq, not_or] at plain
        exact .plain plain.2 plain.1 more

theorem quoted_isLiteral (s : String) : IsLiteral (quoted s) s := by
  refine .intro rfl ?_
  induction s.toList with
  | nil => exact .nil
  | cons c text ih => exact encloses_escaped c ih

section Literals

variable {follows : List Char → Prop}

theorem string?_run (source : Source) (text : List Char) :
    (string?.run source).run text =
      ((match dropBlanks text with
        | [] => return none
        | quote :: rest =>
            if isQuote quote then
              match stringBody quote rest with
              | some (text, after) => do
                  set after
                  return some (String.ofList text)
              | none => throw .unclosedString
            else return none : Parser (Option String)).run source).run (dropBlanks text) := rfl

/-- Strings are read from their literals, and from nothing else. -/
theorem string?_takes_iff {input rest : List Char} {s : String} :
    Takes string? input (some s) rest ↔
      ∃ token, IsLiteral token s ∧ dropBlanks input = token ++ rest := by
  constructor
  · intro taken
    have run := taken ⟨0, []⟩
    rw [string?_run] at run
    split at run
    · cases run
    · next quote more shown =>
        split at run
        · next marks =>
            split at run
            · next text after found =>
                cases run
                obtain ⟨body, rfl, encloses⟩ := Encloses.of_stringBody found
                refine ⟨quote :: (body ++ [quote]), .intro marks ?_, ?_⟩
                · rwa [String.toList_ofList]
                · rw [shown, List.cons_append, List.append_assoc, List.singleton_append]
            · cases run
        · cases run
  · rintro ⟨token, @⟨quote, body, s, marks, encloses⟩, shown⟩ source
    rw [List.cons_append, List.append_assoc, List.singleton_append] at shown
    rw [string?_run, shown]
    dsimp only
    rw [if_pos marks, encloses.stringBody_append (isQuote_ne_backslash marks)]
    exact congrArg (fun s => Except.ok (some s, rest)) String.ofList_toList

theorem IsLiteral.visible {token : List Char} {s : String} (literal : IsLiteral token s) :
    Visible token := by
  obtain ⟨marks, _⟩ := literal
  rcases isQuote_cases marks with rfl | rfl
  · exact .of_head (by decide) (by decide) _
  · exact .of_head (by decide) (by decide) _

theorem string?_parses {token : List Char} {s : String} (literal : IsLiteral token s) :
    Parses follows string? [token] (some s) := by
  intro text rest skipped _
  have found := skipped.first literal.visible
  rw [spaced_nil, List.nil_append] at found
  exact ⟨rest, .refl rest, string?_takes_iff.mpr ⟨token, literal, found⟩⟩

theorem string?_absent {text : List Char} (absent : (dropBlanks text).head?.any isQuote = false) :
    Takes string? text none (dropBlanks text) := by
  intro source
  rw [string?_run]
  generalize dropBlanks text = shown at absent
  cases shown with
  | nil => rfl
  | cons c more =>
      have other : isQuote c = false := absent
      dsimp only
      rw [other]
      rfl

theorem string?_none {source : Source} {text rest : List Char}
    (read : (string?.run source).run text = .ok (none, rest)) :
    rest = dropBlanks text ∧ rest.head?.any isQuote = false := by
  rw [string?_run] at read
  split at read
  · next shown =>
      cases read
      exact ⟨rfl, by rw [shown]; rfl⟩
  · next quote more shown =>
      split at read
      · split at read <;> cases read
      · next other =>
          cases read
          exact ⟨rfl, by rw [shown]; exact eq_false_of_ne_true other⟩

theorem string?_misses :
    Parses (fun rest => (dropBlanks rest).head?.any isQuote = false) string? [] none :=
  .of_ahead (P := fun shown => shown.head?.any isQuote = false) fun _ absent =>
    string?_absent absent

theorem digitsValue_digitChars (n : Nat) : digitsValue (digitChars n) = n :=
  Nat.ofDigitChars_toDigits (by decide) (by decide)

theorem isDigit_ne {c d : Char} (digit : isDigit c = true) (other : isDigit d = false) : c ≠ d := by
  rintro rfl
  rw [digit] at other
  cases other

theorem digitChars_cases (n : Nat) : ∃ c more, digitChars n = c :: more ∧ isDigit c = true := by
  cases same : digitChars n with
  | nil => exact absurd same Nat.toDigits_ne_nil
  | cons c more =>
      exact ⟨c, more, rfl, digitChars_isDigit n c (same ▸ List.mem_cons_self)⟩

theorem codes_of_isDigit {c : Char} (digit : isDigit c = true) :
    48 ≤ c.toNat ∧ c.toNat < 58 := by
  obtain ⟨low, high⟩ := (Bool.and_eq_true _ _).mp digit
  have least : '0'.toNat ≤ c.toNat := of_decide_eq_true low
  have greatest : c.toNat ≤ '9'.toNat := of_decide_eq_true high
  exact ⟨least, Nat.lt_succ_of_le greatest⟩

theorem isDigit_cases {c : Char} (digit : isDigit c = true) :
    Text.isBlank c = false ∧ beginsBare c = false ∧ c.toUpper = c := by
  obtain ⟨low, high⟩ := codes_of_isDigit digit
  exact of_codes (P := fun c => Text.isBlank c = false ∧ beginsBare c = false ∧ c.toUpper = c)
    (by decide) low high

theorem Visible.of_number (n : Nat) : Visible (digitChars n) := by
  obtain ⟨c, more, same, digit⟩ := digitChars_cases n
  rw [same]
  exact .of_head (isDigit_cases digit).1 (isDigit_ne digit (by decide)) more

theorem readInt64?_digits {n : Nat} (fits : n < twoTo 63) :
    readInt64? (digitChars n) = some (Int64.ofInt n) := by
  have all : (digitChars n).all isDigit = true := List.all_eq_true.mpr (digitChars_isDigit n)
  have some_ : (digitChars n).isEmpty = false := by
    obtain ⟨c, more, same, _⟩ := digitChars_cases n
    rw [same]
    rfl
  have first (d : Char) (rest : List Char) (same : digitChars n = d :: rest) :
      isDigit d = true :=
    digitChars_isDigit n d (same ▸ List.mem_cons_self)
  unfold readInt64?
  split
  next negative digits same =>
    split at same
    · next minus => exact absurd (first _ _ minus) (by decide)
    · next plus => exact absurd (first _ _ plus) (by decide)
    · cases same
      simp only [all, some_, digitsValue_digitChars, Bool.not_true, Bool.or_self,
        Bool.false_eq_true, if_false]
      exact if_pos ⟨by omega, by omega⟩

/-- Digits that are followed by nothing or by a space are an integer, if that fits 64 bits. -/
theorem number_takes {n : Nat} (fits : n < twoTo 63) {rest : List Char} (spaces : Spaced rest) :
    Takes number (digitChars n ++ rest) (.int (Int64.ofInt n)) rest := by
  obtain ⟨taken, left⟩ := spaces.takeWhile (by decide) (digitChars_isDigit n)
  have whole : Takes digits (digitChars n ++ rest) (digitChars n) rest := by
    intro source
    have run : (digits.run source).run (digitChars n ++ rest) =
        .ok ((digitChars n ++ rest).takeWhile isDigit, (digitChars n ++ rest).dropWhile isDigit) :=
      rfl
    rw [run, taken, left]
  have part : Takes fraction rest [] rest := by
    rcases spaces with rfl | ⟨more, rfl⟩
    · exact fun _ => rfl
    · exact fun _ => rfl
  have power : Takes exponent rest [] rest := by
    rcases spaces with rfl | ⟨more, rfl⟩
    · exact fun _ => rfl
    · exact fun _ => rfl
  refine whole.bind (part.bind (power.bind ?_))
  have read : readInt64? (digitChars n ++ [] ++ []) = some (Int64.ofInt n) := by
    rw [List.append_nil, List.append_nil, readInt64?_digits fits]
  dsimp only
  simp only [List.isEmpty_nil, Bool.and_self, if_true]
  rw [read]
  exact .pure _ rest

end Literals

end PropertyGraph.Cypher
