import PropertyGraph.Proofs.Cypher.Tokens

/-!
Layouts of texts. A text that was read is divided into tokens and what stands between them, blanks
and comments. More of these make no difference to what is shown behind them, and a token is shown as
it is whatever blank follows.
-/

namespace PropertyGraph.Cypher

variable {g t text rest shown : List Char} {c : Char} {listed : Bool}

/-- A blank, or a comment with its end. -/
inductive IsGap : List Char → Prop
  | blank {c : Char} (blank : Text.isBlank c = true) : IsGap [c]
  | block {body : List Char} (inside : ¬['*', '/'] <:+: body) :
      IsGap ('/' :: '*' :: (body ++ ['*', '/']))
  | line {body : List Char} (inside : ¬['\n'] <:+: body) : IsGap ('/' :: '/' :: (body ++ ['\n']))

theorem dropBlanks_blank (blank : Text.isBlank c = true) (rest : List Char) :
    dropBlanks (c :: rest) = dropBlanks rest := by
  have other : c ≠ '/' := by
    rintro rfl
    cases blank
  rw [dropBlanks, blank]
  · rfl
  · exact fun _ same => absurd same other
  · exact fun _ same => absurd same other

theorem dropBlock_append {body : List Char} (inside : ¬['*', '/'] <:+: body) (rest : List Char) :
    dropBlock (body ++ (['*', '/'] ++ rest)) = dropBlanks rest := by
  induction body with
  | nil => exact dropBlock.eq_2 rest
  | cons c body ih =>
      have later := ih fun found => inside (found.trans (List.suffix_cons c body).isInfix)
      rw [List.cons_append, dropBlock, later]
      intro more star same
      cases body with
      | nil => cases same
      | cons d others =>
          obtain ⟨rfl, _⟩ := List.cons.inj same
          exact inside ⟨[], others, by rw [star]; rfl⟩

theorem dropLine_append {body : List Char} (inside : ¬['\n'] <:+: body) (rest : List Char) :
    dropLine (body ++ (['\n'] ++ rest)) = dropBlanks rest := by
  induction body with
  | nil => exact dropLine.eq_2 rest
  | cons c body ih =>
      have later := ih fun found => inside (found.trans (List.suffix_cons c body).isInfix)
      rw [List.cons_append, dropLine, later]
      rintro rfl
      exact inside ⟨[], body, rfl⟩

namespace IsGap

theorem dropBlanks_append (gap : IsGap g) (rest : List Char) :
    dropBlanks (g ++ rest) = dropBlanks rest := by
  cases gap with
  | blank blank => exact dropBlanks_blank blank rest
  | block inside =>
      rw [List.cons_append, List.cons_append, List.append_assoc, dropBlanks,
        dropBlock_append inside]
  | line inside =>
      rw [List.cons_append, List.cons_append, List.append_assoc, dropBlanks,
        dropLine_append inside]

theorem ne_nil (gap : IsGap g) : g ≠ [] := by
  cases gap <;> exact List.cons_ne_nil _ _

end IsGap

/-- A blank, alone or with blanks and comments behind it. -/
inductive IsPadding : List Char → Prop
  | intro {c : Char} {gaps : List (List Char)} (blank : Text.isBlank c = true)
      (others : ∀ g ∈ gaps, IsGap g) : IsPadding (c :: gaps.flatten)

namespace IsPadding

variable {padding : List Char}

theorem dropBlanks_append (pads : IsPadding padding) (rest : List Char) :
    dropBlanks (padding ++ rest) = dropBlanks rest := by
  obtain ⟨blank, others⟩ := pads
  rename_i c gaps
  rw [List.cons_append, dropBlanks_blank blank]
  clear blank
  induction gaps with
  | nil => rfl
  | cons g gaps ih =>
      rw [List.flatten_cons, List.append_assoc,
        (others g List.mem_cons_self).dropBlanks_append]
      exact ih fun g member => others g (List.mem_cons_of_mem _ member)

theorem head (pads : IsPadding padding) (rest : List Char) :
    (padding ++ rest).head?.any Text.isBlank = true := by
  obtain ⟨blank, _⟩ := pads
  exact blank

end IsPadding

/-! Pieces of a text. -/

/-- A token, or what stands between tokens. Pieces of an item of which the text is kept are
listed. -/
structure Piece where
  chars : List Char
  token : Bool
  listed : Bool

abbrev Layout := List Piece

namespace Layout

def chars (layout : Layout) : List Char := layout.flatMap (·.chars)

@[simp] theorem chars_nil : chars [] = [] := rfl

@[simp] theorem chars_cons (piece : Piece) (layout : Layout) :
    chars (piece :: layout) = piece.chars ++ chars layout := rfl

@[simp] theorem chars_append (first second : Layout) :
    chars (first ++ second) = first.chars ++ second.chars := List.flatMap_append

/-- The layout of an item of which the text is kept. -/
def list (layout : Layout) : Layout := layout.map fun piece => { piece with listed := true }

@[simp] theorem chars_list (layout : Layout) : layout.list.chars = layout.chars := by
  induction layout with
  | nil => rfl
  | cons piece layout ih => exact congrArg (piece.chars ++ ·) ih

end Layout

/-- What may follow in place of something else: something that begins the same way, or with a
blank. -/
def Resumes (rest t : List Char) : Prop := t.head? = rest.head? ∨ t.head?.any Text.isBlank = true

/-- What is shown is neither a blank nor the beginning of a comment. -/
theorem dropBlanks_eq_self : dropBlanks (c :: text) = c :: text ↔
    Text.isBlank c = false ∧ (c = '/' → text.head? ≠ some '/' ∧ text.head? ≠ some '*') := by
  constructor
  · intro same
    have long {rest : List Char} (short : rest.length ≤ text.length) : rest ≠ c :: text := by
      rintro rfl
      exact absurd short (by simp)
    refine ⟨?_, ?_⟩
    · rw [← Bool.not_eq_true]
      intro blank
      rw [dropBlanks_blank blank] at same
      exact long (length_dropBlanks text) same
    · rintro rfl
      refine ⟨fun slash => ?_, fun star => ?_⟩
      · obtain ⟨more, rfl⟩ := List.head?_eq_some_iff.mp slash
        rw [dropBlanks] at same
        exact long (Nat.le_succ_of_le (dropBlanks_spec.2.2 more).1) same
      · obtain ⟨more, rfl⟩ := List.head?_eq_some_iff.mp star
        rw [dropBlanks] at same
        exact long (Nat.le_succ_of_le (dropBlanks_spec.2.1 more).1) same
  · rintro ⟨visible, noComment⟩
    rw [dropBlanks, visible]
    · rfl
    · exact fun more slash same => (noComment slash).1 (by rw [same]; rfl)
    · exact fun more slash same => (noComment slash).2 (by rw [same]; rfl)

/-- A text with a blank and more put into it. -/
inductive Parted (rest : List Char) : List Char → Prop
  | intro {front back more : List Char} {c : Char} (same : rest = front ++ back)
      (blank : Text.isBlank c = true) : Parted rest (front ++ c :: more)

namespace Parted

variable {rest' : List Char}

theorem continues (parted : Parted rest rest') : Resumes rest rest' := by
  cases parted with
  | @intro front back more c same blank =>
      subst same
      cases front with
      | nil => exact .inr blank
      | cons d front => exact .inl rfl

theorem append (t : List Char) (parted : Parted rest rest') : Parted (t ++ rest) (t ++ rest') := by
  cases parted with
  | @intro front back more c same blank =>
      subst same
      rw [← List.append_assoc, ← List.append_assoc]
      exact .intro rfl blank

/-- What is no blank and does not come next, does not come next there either. -/
theorem head_any {accept : Char → Bool} (parted : Parted rest rest')
    (visible : ∀ c, accept c = true → Text.isBlank c = false)
    (ends : rest.head?.any accept = false) : rest'.head?.any accept = false := by
  rcases parted.continues with same | blank
  · rwa [same]
  · cases rest' with
    | nil => rfl
    | cons d others =>
        refine eq_false_of_ne_true fun accepted => ?_
        have blank_ : Text.isBlank d = true := blank
        rw [visible d accepted] at blank_
        cases blank_

end Parted

theorem IsPadding.parted {padding : List Char} (pads : IsPadding padding) (front back : List Char) :
    Parted (front ++ back) (front ++ (padding ++ back)) := by
  obtain ⟨blank, _⟩ := pads
  exact .intro rfl blank

theorem dropBlanks_continues (some_ : t ≠ []) (shown : dropBlanks (t ++ rest) = t ++ rest)
    {more : List Char} (continues : Resumes rest more) : dropBlanks (t ++ more) = t ++ more := by
  obtain ⟨c, others, rfl⟩ := List.exists_cons_of_ne_nil some_
  rw [List.cons_append] at shown ⊢
  obtain ⟨visible, noComment⟩ := dropBlanks_eq_self.mp shown
  refine dropBlanks_eq_self.mpr ⟨visible, fun slash => ?_⟩
  have apart := noComment slash
  cases others with
  | cons d others => exact apart
  | nil =>
      rcases continues with same | blank
      · exact same ▸ apart
      · constructor <;> intro here <;> rw [List.nil_append] at here <;> rw [here] at blank <;>
          cases blank

/-- A layout in front of something: gaps of which only the last may be without its end, and tokens
that are not skipped; a word of letters ends where no word goes on. -/
inductive Laid : Layout → List Char → Prop
  | nil (rest : List Char) : Laid [] rest
  | gap {g rest : List Char} {listed : Bool} {layout : Layout} (gap : IsGap g)
      (laid : Laid layout rest) : Laid (⟨g, false, listed⟩ :: layout) rest
  | unclosed {g : List Char} {listed : Bool} (some_ : g ≠ []) (hidden : dropBlanks g = []) :
      Laid [⟨g, false, listed⟩] []
  | token {t rest : List Char} {listed : Bool} {layout : Layout} (some_ : t ≠ [])
      (shown : dropBlanks (t ++ (layout.chars ++ rest)) = t ++ (layout.chars ++ rest))
      (closed : t.all Char.isAlpha = true → (layout.chars ++ rest).head?.any isWordPart = false)
      (laid : Laid layout rest) : Laid (⟨t, true, listed⟩ :: layout) rest

theorem isWordPart_of_isAlpha (letter : c.isAlpha = true) : isWordPart c = true := by
  have codes (low high : Char) (inside : low ≤ c ∧ c ≤ high) (small : high.toNat < 128) :
      c.toNat < 128 := Nat.lt_of_le_of_lt inside.2 small
  have ascii : c.toNat < 128 := by
    rcases (Bool.or_eq_true _ _).mp letter with upper | lower
    · have range : 'A' ≤ c ∧ c ≤ 'Z' := of_decide_eq_true upper
      exact codes 'A' 'Z' range (by decide)
    · obtain ⟨low, high⟩ := (Bool.and_eq_true _ _).mp lower
      exact codes 'a' 'z' ⟨of_decide_eq_true low, of_decide_eq_true high⟩ (by decide)
  rw [isWordPart, Text.isLetterOrNumber, if_pos ascii, Char.isAlphanum, letter]
  rfl

namespace Laid

variable {front back layout : Layout}

theorem chars_ne_nil (laid : Laid layout rest) (some_ : layout ≠ []) : layout.chars ≠ [] := by
  cases laid with
  | nil => exact absurd rfl some_
  | gap gap => exact fun empty => gap.ne_nil (List.append_eq_nil_iff.mp empty).1
  | unclosed letters => exact fun empty => letters (List.append_eq_nil_iff.mp empty).1
  | token letters => exact fun empty => letters (List.append_eq_nil_iff.mp empty).1

theorem append (first : Laid front (back.chars ++ rest)) (second : Laid back rest) :
    Laid (front ++ back) rest := by
  generalize same : back.chars ++ rest = behind at first
  induction first with
  | nil => exact second
  | gap gap _ ih => exact .gap gap (ih same)
  | unclosed some_ hidden =>
      obtain ⟨none_, rfl⟩ := List.append_eq_nil_iff.mp same
      obtain rfl : back = [] := by
        by_contra some_
        exact second.chars_ne_nil some_ none_
      exact .unclosed some_ hidden
  | token some_ shown closed _ ih =>
      subst same
      rw [List.cons_append]
      refine .token some_ ?_ ?_ (ih rfl)
      · rwa [Layout.chars_append, List.append_assoc]
      · rwa [Layout.chars_append, List.append_assoc]

/-- What stands in front of a place is laid out before all that stands behind it. -/
theorem before (laid : Laid (front ++ back) rest) (some_ : back.chars ++ rest ≠ []) :
    Laid front (back.chars ++ rest) := by
  induction front with
  | nil => exact .nil _
  | cons piece front ih =>
      rw [List.cons_append] at laid
      generalize same : front ++ back = layout at laid
      cases laid with
      | gap gap laid =>
          subst same
          exact .gap gap (ih laid)
      | unclosed _ _ =>
          obtain ⟨_, rfl⟩ := List.append_eq_nil_iff.mp same
          exact absurd rfl some_
      | token some_ shown closed laid =>
          subst same
          rw [Layout.chars_append, List.append_assoc] at shown closed
          exact .token some_ shown closed (ih laid)

theorem behind (laid : Laid (front ++ back) rest) : Laid back rest := by
  induction front with
  | nil => exact laid
  | cons piece front ih =>
      rw [List.cons_append] at laid
      generalize same : front ++ back = layout at laid
      cases laid with
      | gap _ laid => exact ih (same ▸ laid)
      | unclosed _ _ =>
          obtain ⟨_, rfl⟩ := List.append_eq_nil_iff.mp same
          exact .nil []
      | token _ _ _ laid => exact ih (same ▸ laid)

theorem list (laid : Laid layout rest) : Laid layout.list rest := by
  induction laid with
  | nil => exact .nil _
  | gap gap _ ih => exact .gap gap ih
  | unclosed some_ hidden => exact .unclosed some_ hidden
  | @token t rest listed layout some_ shown closed _ ih =>
      rw [← Layout.chars_list layout] at shown closed
      exact .token some_ shown closed ih

/-- Gaps alone show what stands behind them, and anything else shows itself from its first token
on. -/
theorem look (laid : Laid layout rest) (some_ : rest ≠ []) :
    (∀ more, dropBlanks (layout.chars ++ more) = dropBlanks more) ∨
    ∃ shown, shown ≠ [] ∧
      (∀ more, Resumes rest more → dropBlanks (layout.chars ++ more) = shown ++ more) ∧
      (shown.all Char.isAlpha = true → rest.head?.any isWordPart = false) := by
  induction laid with
  | nil => exact .inl fun more => rfl
  | gap gap _ ih =>
      rcases ih some_ with hidden | ⟨shown, letters, shows, closed⟩
      · refine .inl fun more => ?_
        rw [Layout.chars_cons, List.append_assoc, gap.dropBlanks_append, hidden]
      · refine .inr ⟨shown, letters, fun more continues => ?_, closed⟩
        rw [Layout.chars_cons, List.append_assoc, gap.dropBlanks_append, shows more continues]
  | unclosed => exact absurd rfl some_
  | @token t rest listed layout letters shown closed laid _ =>
      refine .inr ⟨t ++ layout.chars, ?_, fun more continues => ?_, fun all => ?_⟩
      · exact fun empty => letters (List.append_eq_nil_iff.mp empty).1
      · rw [Layout.chars_cons, List.append_assoc]
        refine dropBlanks_continues letters shown ?_
        cases same : layout.chars with
        | nil => exact continues
        | cons d others => exact .inl rfl
      · -- Behind a word of letters there is no letter, so nothing but the word was shown.
        rw [List.all_append, Bool.and_eq_true] at all
        have apart := closed all.1
        cases same : layout.chars with
        | nil => rwa [same] at apart
        | cons d others =>
            rw [same, List.all_cons, Bool.and_eq_true] at all
            rw [same, List.cons_append, List.head?_cons, Option.any_some,
              isWordPart_of_isAlpha all.2.1] at apart
            cases apart

end Laid

/-- Gaps alone, as they stand between tokens. -/
structure Gaps (layout : Layout) (rest : List Char) : Prop where
  laid : Laid layout rest
  plain : ∀ piece ∈ layout, piece.token = false ∧ piece.listed = false

namespace Gaps

variable {front back layout : Layout}

theorem nil (rest : List Char) : Gaps [] rest := ⟨.nil rest, nofun⟩

theorem cons (gap : IsGap g) (gaps : Gaps layout rest) : Gaps (⟨g, false, false⟩ :: layout) rest :=
  ⟨.gap gap gaps.laid, List.forall_mem_cons.mpr ⟨⟨rfl, rfl⟩, gaps.plain⟩⟩

theorem unclosed (some_ : g ≠ []) (hidden : dropBlanks g = []) : Gaps [⟨g, false, false⟩] [] :=
  ⟨.unclosed some_ hidden, List.forall_mem_singleton.mpr ⟨rfl, rfl⟩⟩

theorem before (gaps : Gaps (front ++ back) rest) (some_ : back.chars ++ rest ≠ []) :
    Gaps front (back.chars ++ rest) :=
  ⟨gaps.laid.before some_, fun piece member => gaps.plain piece (List.mem_append_left back member)⟩

theorem hides (gaps : Gaps layout rest) (some_ : rest ≠ []) (more : List Char) :
    dropBlanks (layout.chars ++ more) = dropBlanks more := by
  obtain ⟨laid, plain⟩ := gaps
  induction laid with
  | nil => rfl
  | gap gap _ ih =>
      rw [Layout.chars_cons, List.append_assoc, gap.dropBlanks_append,
        ih some_ (List.forall_mem_cons.mp plain).2]
  | unclosed => exact absurd rfl some_
  | token => cases (List.forall_mem_cons.mp plain).1.1

end Gaps

/-- The text is the rest behind gaps. -/
def SplitsGaps (text rest : List Char) : Prop :=
  ∃ gaps : Layout, text = gaps.chars ++ rest ∧ Gaps gaps rest

/-- The text is the rest behind gaps behind the end of a comment, if that has an end. -/
def SplitsComment (ends text rest : List Char) : Prop :=
  rest = [] ∨
    ∃ body more, ¬ends <:+: body ∧ text = body ++ (ends ++ more) ∧ SplitsGaps more rest

theorem SplitsGaps.gap (gap : IsGap g) (splits : SplitsGaps text rest) :
    SplitsGaps (g ++ text) rest := by
  obtain ⟨gaps, rfl, laid⟩ := splits
  exact ⟨⟨g, false, false⟩ :: gaps, (List.append_assoc ..).symm, .cons gap laid⟩

theorem SplitsComment.cons {ends : List Char} (apart : ¬ends <+: c :: text)
    (splits : SplitsComment ends text rest) : SplitsComment ends (c :: text) rest := by
  rcases splits with none_ | ⟨body, more, inside, rfl, splits⟩
  · exact .inl none_
  · refine .inr ⟨c :: body, more, fun found => ?_, rfl, splits⟩
    rcases List.infix_cons_iff.mp found with first | later
    · exact apart (first.trans (List.prefix_append (c :: body) (ends ++ more)))
    · exact inside later

/-- A comment is a gap, or else it hides all that follows. -/
theorem SplitsComment.comment {opens ends : List Char} (some_ : opens ≠ [])
    (gap : ∀ body, ¬ends <:+: body → IsGap (opens ++ (body ++ ends)))
    (hidden : rest = [] → dropBlanks (opens ++ text) = [])
    (splits : SplitsComment ends text rest) : SplitsGaps (opens ++ text) rest := by
  rcases splits with rfl | ⟨body, more, inside, rfl, splits⟩
  · have empty : opens ++ text ≠ [] := fun none_ => some_ (List.append_eq_nil_iff.mp none_).1
    exact ⟨[⟨opens ++ text, false, false⟩], by simp, .unclosed empty (hidden rfl)⟩
  · have whole := splits.gap (gap body inside)
    rwa [List.append_assoc, List.append_assoc] at whole

theorem splitsGaps (text : List Char) : SplitsGaps text (dropBlanks text) := by
  have spec : (∀ text, SplitsGaps text (dropBlanks text)) ∧
      (∀ text, SplitsComment ['*', '/'] text (dropBlock text)) ∧
      ∀ text, SplitsComment ['\n'] text (dropLine text) := by
    apply dropBlanks.mutual_induct_unfolding SplitsGaps (SplitsComment ['*', '/'])
      (SplitsComment ['\n'])
    case case1 => exact ⟨[], rfl, .nil []⟩
    case case2 =>
      intro rest splits
      rw [dropBlanks]
      refine splits.comment (List.cons_ne_nil '/' ['/']) (fun body inside => .line inside)
        fun none_ => ?_
      rw [List.cons_append, List.cons_append, dropBlanks, List.nil_append, none_]
    case case3 =>
      intro rest splits
      rw [dropBlanks]
      refine splits.comment (List.cons_ne_nil '/' ['*']) (fun body inside => .block inside)
        fun none_ => ?_
      rw [List.cons_append, List.cons_append, dropBlanks, List.nil_append, none_]
    case case4 =>
      intro c rest _ _ blank splits
      rw [dropBlanks_blank blank]
      exact splits.gap (.blank blank)
    case case5 =>
      intro c rest noLine noBlock visible
      have same : dropBlanks (c :: rest) = c :: rest := by simp [dropBlanks, visible]
      rw [same]
      exact ⟨[], rfl, .nil _⟩
    case case6 | case9 => exact .inl rfl
    case case7 =>
      intro rest splits
      rw [dropBlock]
      exact .inr ⟨[], rest, by simp, rfl, splits⟩
    case case8 =>
      intro c rest apart splits
      rw [dropBlock.eq_3 c rest apart]
      refine splits.cons fun first => ?_
      obtain ⟨more, same⟩ := first
      exact apart more (List.cons.inj same).1.symm (List.cons.inj same).2.symm
    case case10 =>
      intro rest splits
      rw [dropLine]
      exact .inr ⟨[], rest, by simp, rfl, splits⟩
    case case11 =>
      intro c rest apart splits
      rw [dropLine.eq_3 c rest apart]
      refine splits.cons fun first => ?_
      obtain ⟨more, same⟩ := first
      exact apart (List.cons.inj same).1.symm
  exact spec.1 text

end PropertyGraph.Cypher
