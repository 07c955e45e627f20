import PropertyGraph.Proofs.Cypher.Primaries

/-!
Parts of queries one after another. What stands behind a part begins with a keyword or with a mark,
and each reader stops there.
-/

namespace PropertyGraph.Cypher

variable {α β : Type} {follows : List Char → Prop} {tokens : List Token} {rest : List Char}

/-- Nothing, or a token that is not skipped, behind one space. -/
def Clear (rest : List Char) : Prop :=
  rest = [] ∨ ∃ token more, Visible token ∧ rest = ' ' :: (token ++ more)

namespace Clear

theorem of_mark {c : Char} (visible : Text.isBlank c = false) (other : c ≠ '/') (rest : List Char) :
    Clear (' ' :: c :: rest) := .inr ⟨[c], rest, .of_head visible other [], rfl⟩

theorem dropBlanks_eq (clear : Clear rest) : dropBlanks rest = rest.tail := by
  rcases clear with rfl | ⟨token, more, visible, rfl⟩
  · rfl
  · exact visible.dropBlanks_eq more

end Clear

/-- Nothing, or one of these keywords. -/
def AtWord (keywords : List String) (rest : List Char) : Prop :=
  rest = [] ∨ ∃ keyword ∈ keywords, isCapitals keyword = true ∧
    ∃ more, Spaced more ∧ rest = ' ' :: (keyword.toList ++ more)

namespace AtWord

variable {keywords more words : List String} {marks : List Char}

theorem of_token {keyword : String} (capitals : isCapitals keyword = true)
    (member : keyword ∈ keywords) (tokens : List Token) (spaces : Spaced rest) :
    AtWord keywords (spaced (keyword.toList :: tokens) ++ rest) := by
  refine .inr ⟨keyword, member, capitals, spaced tokens ++ rest, spaces.tokens tokens, ?_⟩
  rw [spaced_cons, List.cons_append, List.append_assoc]

theorem mono (stands : AtWord keywords rest) (included : keywords ⊆ more) : AtWord more rest := by
  rcases stands with rfl | ⟨keyword, member, others⟩
  · exact .inl rfl
  · exact .inr ⟨keyword, included member, others⟩

theorem spaces (stands : AtWord keywords rest) : Spaced rest := by
  rcases stands with rfl | ⟨keyword, _, _, more, _, rfl⟩
  · exact .inl rfl
  · exact .inr ⟨_, rfl⟩

theorem clear (stands : AtWord keywords rest) : Clear rest := by
  rcases stands with rfl | ⟨keyword, _, capitals, more, _, rfl⟩
  · exact .inl rfl
  · exact .inr ⟨keyword.toList, more, (isCapitals_cases capitals).2, rfl⟩

theorem lacks (stands : AtWord keywords rest)
    (others : ∀ word ∈ words, isCapitals word = true ∧ word ∉ keywords)
    (apart : marks.any beginsBare = false) : Lacks words marks rest := by
  rcases stands with rfl | ⟨keyword, member, capitals, more, spaces, rfl⟩
  · refine .intro (fun word member => ?_) nofun
    obtain ⟨_, letter, letters, same, _⟩ := isCapitals_cases (others word member).1
    rw [same]
    rfl
  · obtain ⟨upper, _⟩ := isCapitals_cases capitals
    refine .of_name (isBareName_of_isCapitals capitals) spaces (fun word found => ?_) apart
    obtain ⟨capitalsToo, absent⟩ := others word found
    refine ⟨space_of_isCapitals capitalsToo, fun same => ?_⟩
    rw [List.map_congr_left upper, List.map_id'] at same
    exact absent (String.toList_inj.mp same ▸ member)

theorem stops (stands : AtWord keywords rest)
    (others : ∀ word ∈ fromLevel 0 continuingWords, word ∉ keywords) : Stops 0 rest := by
  refine ⟨stands.spaces, stands.lacks (fun word member => ⟨?_, others word member⟩) (by decide)⟩
  exact (by decide : ∀ word ∈ fromLevel 0 continuingWords, isCapitals word = true) word member

end AtWord

section Readers

variable {item : Parser α} {item? : Parser (Option α)} {word : String} {a : α}

theorem keyword?_parses (capitals : isCapitals word = true) (one : Parses follows item tokens a)
    (spaces : ∀ rest, follows rest → Spaced rest) :
    Parses follows (keyword? word item) (word.toList :: tokens) (some a) :=
  .keyword capitals (one.last rfl) spaces

theorem keyword?_misses : Parses (Lacks [word] []) (keyword? word item) [] none :=
  .noKeyword (.pure none) fun _ absent => absent

section Repeated

variable {inner : List Char → Prop} {parts : List (List Token)} {items : List α}

/-- What may stand behind an item may stand behind what comes between as well. -/
theorem behind_parts (between : ∀ part ∈ parts, ∀ rest, inner rest → inner (spaced part ++ rest))
    (ends : inner rest) : inner (spaced parts.flatten ++ rest) := by
  induction parts with
  | nil => exact ends
  | cons part others ih =>
      rw [List.flatten_cons, spaced_append, List.append_assoc]
      apply between part List.mem_cons_self
      exact ih fun part member => between part (List.mem_cons_of_mem _ member)

theorem repeatedFrom_parses
    (each : List.Forall₂ (fun part a => Parses inner item? part (some a)) parts items)
    (missing : Parses follows item? [] none) (fits : ∀ rest, follows rest → inner rest)
    (between : ∀ part ∈ parts, ∀ rest, inner rest → inner (spaced part ++ rest)) {fuel : Nat}
    (enough : items.length < fuel) :
    Parses follows (repeatedFrom item? fuel) parts.flatten items := by
  induction each generalizing fuel with
  | nil =>
      obtain ⟨fuel, rfl⟩ : ∃ n, fuel = n + 1 := ⟨fuel - 1, by omega⟩
      exact missing.look (.pure []) fun rest ends => ends
  | @cons part a parts items first others ih =>
      obtain ⟨fuel, rfl⟩ : ∃ n, fuel = n + 1 := ⟨fuel - 1, by omega⟩
      have apart : ∀ part ∈ parts, ∀ rest, inner rest → inner (spaced part ++ rest) :=
        fun part member => between part (List.mem_cons_of_mem _ member)
      have later := ih apart (Nat.lt_of_succ_lt_succ enough)
      exact first.bind (later.last rfl) fun rest ends => behind_parts apart (fits rest ends)

theorem begins_flatten {part : List Token} (begins : Begins part) (others : List (List Token)) :
    Begins (part :: others).flatten := by
  rw [List.flatten_cons]
  exact begins.append _

theorem length_le_flatten (visible : ∀ part ∈ parts, Begins part) :
    parts.length ≤ parts.flatten.length := by
  induction parts with
  | nil => exact Nat.zero_le _
  | cons part others ih =>
      obtain ⟨token, more, rfl, _⟩ := visible part List.mem_cons_self
      have later := ih fun part member => visible part (List.mem_cons_of_mem _ member)
      simp only [List.flatten_cons, List.length_append, List.length_cons] at later ⊢
      omega

theorem repeated_parses (visible : ∀ part ∈ parts, Begins part)
    (each : List.Forall₂ (fun part a => Parses inner item? part (some a)) parts items)
    (missing : Parses follows item? [] none) (fits : ∀ rest, follows rest → inner rest)
    (between : ∀ part ∈ parts, ∀ rest, inner rest → inner (spaced part ++ rest)) :
    Parses follows (repeated item?) parts.flatten items := by
  refine .of_get fun text rest skipped ends => ?_
  have many := length_le_flatten visible
  have same := each.length_eq
  have long : parts.flatten.length ≤ text.length := by
    cases parts with
    | nil => exact Nat.zero_le _
    | cons part others =>
        exact (begins_flatten (visible part List.mem_cons_self) others).length_le skipped
  exact repeatedFrom_parses each missing fits between (by omega) text rest skipped ends

end Repeated

end Readers

/-- The last token does not end with a blank. -/
def Finishes (tokens : List Token) : Prop :=
  ∃ front more c, tokens = front ++ [more ++ [c]] ∧ Text.isBlank c = false

namespace Finishes

theorem prepend (finishes : Finishes tokens) (front : List Token) : Finishes (front ++ tokens) := by
  obtain ⟨others, more, c, rfl, visible⟩ := finishes
  exact ⟨front ++ others, more, c, (List.append_assoc ..).symm, visible⟩

theorem of_token {token : Token} (some_ : token ≠ [])
    (visible : ∀ c ∈ token, Text.isBlank c = false) : Finishes [token] := by
  rcases List.eq_nil_or_concat token with empty | ⟨more, c, rfl⟩
  · exact absurd empty some_
  · refine ⟨[], more, c, ?_, visible c ?_⟩
    · rw [List.concat_eq_append, List.nil_append]
    · rw [List.concat_eq_append]
      exact List.mem_append_right _ (List.mem_singleton_self c)

theorem of_name {name : String} (bare : isBareName name = true) : Finishes [name.toList] := by
  obtain ⟨c, more, same, begins, parts⟩ := isBareName_cases bare
  rw [same]
  refine .of_token (List.cons_ne_nil _ _) (List.forall_mem_cons.mpr ⟨?_, fun d member => ?_⟩)
  · exact isBlank_of_beginsBare begins
  · exact isBlank_of_isWordPart (parts d member)

theorem of_number (n : Nat) : Finishes [digitChars n] := by
  obtain ⟨c, more, same, _⟩ := digitChars_cases n
  refine .of_token (same ▸ List.cons_ne_nil _ _) fun d member => ?_
  exact (isDigit_cases (digitChars_isDigit n d member)).1

theorem enclosed (finishes : Finishes tokens) (place own : Nat) :
    Finishes (enclosed place own tokens) := by
  unfold Cypher.enclosed
  split
  · exact ⟨['('] :: tokens, [], ')', rfl, rfl⟩
  · exact finishes

end Finishes

/-- Blanks behind a text that neither begins nor ends with one are all that is trimmed. -/
theorem trim_append {c d : Char} {text front more blanks : List Char} (begins : text = c :: more)
    (ends : text = front ++ [d]) (first : Text.isBlank c = false) (last : Text.isBlank d = false)
    (all : ∀ b ∈ blanks, Text.isBlank b = true) : Text.trim (text ++ blanks) = text := by
  have start : Text.trimStart (text ++ blanks) = text ++ blanks := by
    unfold Text.trimStart
    rw [begins, List.cons_append, List.dropWhile_cons_of_neg (by rw [first]; decide)]
  have backwards : (text ++ blanks).reverse = blanks.reverse ++ (d :: front.reverse) := by
    rw [List.reverse_append, ends, List.reverse_append]
    rfl
  unfold Text.trim
  rw [start, backwards,
    List.dropWhile_append_of_pos fun b member => all b (List.mem_reverse.mp member),
    List.dropWhile_cons_of_neg (by rw [last]; decide), ends, List.reverse_cons,
    List.reverse_reverse]

/-- An expression that is read back from its tokens wherever nothing goes on with it, and that is
framed by no blanks. -/
structure PrintsBack (print : Expression → List Token) (e : Expression) : Prop where
  heads : Heads 0 (print e)
  finishes : Finishes (print e)
  parses : Parses (Stops 0) expression (print e) e

section Texts

variable {print : Expression → List Token} {e : Expression}

/-- What may stand behind an expression of which the text is kept. -/
structure ClearStop (rest : List Char) : Prop where
  stops : Stops 0 rest
  clear : Clear rest

theorem trim_tokens (begins : Begins tokens) (finishes : Finishes tokens) {blanks : List Char}
    (all : ∀ b ∈ blanks, Text.isBlank b = true) :
    Text.trim ((spaced tokens).tail ++ blanks) = (spaced tokens).tail := by
  obtain ⟨first, others, same, c, more, rfl, visible, _⟩ := begins
  obtain ⟨front, body, d, ends, shown⟩ := finishes
  have last : ∃ text, (spaced tokens).tail = text ++ [d] := by
    rw [ends, spaced_append, spaced_cons, spaced_nil, List.append_nil]
    cases front with
    | nil => exact ⟨body, rfl⟩
    | cons token front =>
        refine ⟨token ++ spaced front ++ ' ' :: body, ?_⟩
        simp
  obtain ⟨text, ends⟩ := last
  have begins : (spaced tokens).tail = c :: (more ++ spaced others) := by
    rw [same, spaced_cons, List.tail_cons, List.cons_append]
  exact trim_append begins ends visible shown all

/-- The text of an expression is what was printed. -/
theorem withText_parses (back : PrintsBack print e) :
    Parses ClearStop (withText expression) (print e) (e, textOf (print e)) := by
  intro text rest skipped ends
  obtain ⟨token, more, same, visible⟩ := back.heads.begins
  have shown : dropBlanks text = (spaced (print e)).tail ++ rest := by
    rw [same] at skipped ⊢
    rw [skipped.first visible, spaced_cons, List.tail_cons, List.append_assoc]
  obtain ⟨after, behind, taken⟩ := back.parses (dropBlanks text) rest (.inr skipped.dropBlanks_eq)
    ends.stops
  refine ⟨after, behind, fun source => ?_⟩
  have run : ((withText expression).run source).run text =
      ((expression.run source).run (dropBlanks text)) >>= fun found =>
        .ok ((found.1, String.ofList (Text.trim ((dropBlanks text).take
          ((dropBlanks text).length - found.2.length)))), found.2) := rfl
  have between : ∃ blanks, (∀ b ∈ blanks, Text.isBlank b = true) ∧ rest = blanks ++ after := by
    rcases behind with rfl | rfl
    · exact ⟨[], nofun, rfl⟩
    · rw [ends.clear.dropBlanks_eq]
      rcases ends.clear with rfl | ⟨token, more, _, rfl⟩
      · exact ⟨[], nofun, rfl⟩
      · exact ⟨[' '], List.forall_mem_singleton.mpr rfl, rfl⟩
  obtain ⟨blanks, all, rfl⟩ := between
  have body : (dropBlanks text).take ((dropBlanks text).length - after.length) =
      (spaced (print e)).tail ++ blanks := by
    rw [shown, ← List.append_assoc, List.length_append, Nat.add_sub_cancel, List.take_left]
  rw [run, taken source]
  change Except.ok ((e, String.ofList (Text.trim _)), after) = _
  rw [body, trim_tokens back.heads.begins back.finishes all, ← textOf_eq, String.ofList_toList]

end Texts

end PropertyGraph.Cypher
