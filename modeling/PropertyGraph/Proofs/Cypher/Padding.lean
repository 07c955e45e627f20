import PropertyGraph.Proofs.Cypher.Scanning

/-!
Blanks and comments between tokens. A blank, alone or with comments behind it, makes no difference
between any two tokens, but to the text of an item that ends there: of that only blanks are cut off.
-/

namespace PropertyGraph

namespace Cypher

variable {α β : Type} {p : Parser α} {a : α} {t text rest : List Char} {parameters : Properties}
  {gaps layout front back : Layout} {padding : List Char}

namespace Layout

/-- Up to this place an item is listed, as far as its readers went. -/
def endsListed (front : Layout) : Bool := front.getLast?.any (·.listed)

/-- The next token is one of an item. -/
def nextListed (back : Layout) : Bool := (back.find? (·.token)).any (·.listed)

/-- What stands between the place and the next token. -/
def gapsAhead (back : Layout) : List Char := chars (back.takeWhile (!·.token))

theorem gapsAhead_append (back others : Layout) :
    ∃ more, gapsAhead (back ++ others) = gapsAhead back ++ more := by
  unfold gapsAhead
  rw [List.takeWhile_append]
  split
  · next all =>
      have whole := (List.takeWhile_prefix (!Piece.token ·) (l := back)).eq_of_length all
      exact ⟨chars (others.takeWhile (!·.token)), by rw [whole, chars_append]⟩
  · exact ⟨[], (List.append_nil _).symm⟩

theorem of_gaps (gaps : ∀ piece ∈ back, piece.token = false) :
    nextListed back = false ∧ gapsAhead back = chars back := by
  constructor
  · have none_ : back.find? (·.token) = none :=
      List.find?_eq_none.mpr fun piece member => by simp [gaps piece member]
    rw [nextListed, none_]
    rfl
  · have all : ∀ piece ∈ back, (!Piece.token piece) = true := fun piece member => by
      simp [gaps piece member]
    have whole := @List.takeWhile_append_of_pos _ _ back [] all
    rw [List.append_nil, List.takeWhile_nil, List.append_nil] at whole
    rw [gapsAhead, whole]

theorem nextListed_list {piece : Piece} (member : piece ∈ back) (token : piece.token = true) :
    nextListed back.list = true := by
  have listed : ({ piece with listed := true } : Piece) ∈ back.list :=
    List.mem_map_of_mem member
  unfold nextListed
  cases found : back.list.find? (·.token) with
  | none => exact absurd token (List.find?_eq_none.mp found { piece with listed := true } listed)
  | some next =>
      obtain ⟨_, _, rfl⟩ := List.mem_map.mp (List.mem_of_find?_eq_some found)
      rfl

theorem endsListed_append (some_ : front ≠ []) (others : Layout) :
    endsListed (others ++ front) = endsListed front := by
  rw [endsListed, List.getLast?_append_of_ne_nil _ some_]
  rfl

theorem endsListed_list (some_ : front ≠ []) : endsListed front.list = true := by
  rw [endsListed, list, List.getLast?_map, List.getLast?_eq_some_getLast some_]
  rfl

/-- The place between the two is strictly inside an item. -/
def splitsItem (front back : Layout) : Bool := endsListed front && nextListed back

end Layout

/-- Behind the last token of an item there are blanks only. -/
def KeepsText (padding : List Char) (front back : Layout) : Prop :=
  front.endsListed = true →
    (∀ c ∈ padding, Text.isBlank c = true) ∧ ∀ c ∈ back.gapsAhead, Text.isBlank c = true

/-- The place is not inside an item, and the text of an item that ends there stays the same. -/
structure Harmless (padding : List Char) (front back : Layout) : Prop where
  outside : Layout.splitsItem front back = false
  keeps : KeepsText padding front back

namespace Harmless

theorem first : Harmless padding [] back := ⟨rfl, nofun⟩

theorem before {others : Layout} (harmless : Harmless padding front (back ++ others)) :
    Harmless padding front back := by
  obtain ⟨outside, keeps⟩ := harmless
  constructor
  · rw [Layout.splitsItem, Bool.and_eq_false_imp] at outside ⊢
    intro listed
    have next := outside listed
    rw [Layout.nextListed, List.find?_append] at next
    rw [Layout.nextListed]
    cases found : back.find? (·.token) with
    | none => rfl
    | some piece => rwa [found] at next
  · intro listed
    refine ⟨(keeps listed).1, fun c member => (keeps listed).2 c ?_⟩
    obtain ⟨more, same⟩ := back.gapsAhead_append others
    rw [same]
    exact List.mem_append_left more member

theorem behind {others : Layout} (some_ : front ≠ [])
    (harmless : Harmless padding (others ++ front) back) : Harmless padding front back := by
  have same := Layout.endsListed_append some_ others
  exact ⟨by rw [Layout.splitsItem, ← same]; exact harmless.outside, fun listed =>
    harmless.keeps (same ▸ listed)⟩

/-- Behind a token of an item no other token of it follows, and blanks only. -/
theorem list {others : Layout} (some_ : front ≠ [])
    (harmless : Harmless padding (others ++ front.list) back.list) :
    Harmless padding front back ∧ (∀ c ∈ padding, Text.isBlank c = true) ∧
      ∀ c ∈ back.chars, Text.isBlank c = true := by
  have listed : front.list ≠ [] := fun none_ => some_ (List.map_eq_nil_iff.mp none_)
  have ends : (others ++ front.list).endsListed = true := by
    rw [Layout.endsListed_append listed, Layout.endsListed_list some_]
  have next : back.list.nextListed = false := by
    have outside := harmless.outside
    rwa [Layout.splitsItem, ends, Bool.true_and] at outside
  have gaps : ∀ piece ∈ back, piece.token = false := by
    refine fun piece member => eq_false_of_ne_true fun token => ?_
    rw [Layout.nextListed_list member token] at next
    cases next
  have gapsListed : ∀ piece ∈ back.list, piece.token = false :=
    List.forall_mem_map.mpr fun piece member => gaps piece member
  obtain ⟨blank, ahead⟩ := harmless.keeps ends
  rw [(Layout.of_gaps gapsListed).2, Layout.chars_list] at ahead
  obtain ⟨none_, all⟩ := Layout.of_gaps gaps
  refine ⟨⟨by rw [Layout.splitsItem, none_, Bool.and_false], fun _ => ⟨blank, ?_⟩⟩, blank, ahead⟩
  rwa [all]

end Harmless

/-- With these parameters, behind any number of bytes, the parser reads this from the text. -/
def TakesWith (parameters : Properties) (p : Parser α) (text : List Char) (a : α)
    (rest : List Char) : Prop :=
  ∀ bytes, (p.run ⟨bytes, parameters⟩).run text = .ok (a, rest)

theorem TakesWith.bind {next : α → Parser β} {middle : List Char} {b : β}
    (first : TakesWith parameters p text a middle)
    (second : TakesWith parameters (next a) middle b rest) :
    TakesWith parameters (p >>= next) text b rest := by
  intro bytes
  rw [Parser.bind_run, first bytes]
  exact second bytes

/-- The same is read with a blank put in at a place that does no harm, whether it is in front of the
place where the reader stops or behind that. -/
structure Tolerates (parameters : Properties) (p : Parser α) (text : List Char) (a : α)
    (rest : List Char) (layout : Layout) : Prop where
  split : text = layout.chars ++ rest
  laid : Laid layout rest
  takes : TakesWith parameters p text a rest
  within : ∀ front back padding, layout = front ++ back → back.chars ++ rest ≠ [] →
    IsPadding padding → Harmless padding front back →
    ∃ after, (after = rest ∨ after = padding ++ rest ∧ back = []) ∧
      TakesWith parameters p (front.chars ++ (padding ++ (back.chars ++ rest))) a after
  beyond : ∀ (ahead : Layout) behind padding, ahead ≠ [] → behind ≠ [] → Laid ahead behind →
    rest = ahead.chars ++ behind → IsPadding padding →
    TakesWith parameters p (layout.chars ++ (ahead.chars ++ (padding ++ behind))) a
      (ahead.chars ++ (padding ++ behind))

namespace Tolerates

theorem pure (a : α) (text : List Char) : Tolerates parameters (Pure.pure a) text a text [] where
  split := rfl
  laid := .nil text
  takes := fun _ => rfl
  within := by
    intro front back padding split _ _ _
    obtain ⟨rfl, rfl⟩ := List.append_eq_nil_iff.mp split.symm
    exact ⟨padding ++ text, .inr ⟨rfl, rfl⟩, fun _ => rfl⟩
  beyond := fun _ _ _ _ _ _ _ _ _ => rfl

section Bind

variable {next : α → Parser β} {middle : List Char} {b : β} {others : Layout}
  (first : Tolerates parameters p text a middle front)
  (second : Tolerates parameters (next a) middle b rest back)

include first second

theorem bind_first {before : Layout} (split : front = before ++ others)
    (some_ : others.chars ++ middle ≠ []) (pads : IsPadding padding)
    (harmless : Harmless padding before others) :
    ∃ after, (after = rest ∨ after = padding ++ rest ∧ others ++ back = []) ∧
      TakesWith parameters (p >>= next) (before.chars ++ (padding ++ (others.chars ++ middle))) b
        after := by
  obtain ⟨between, rfl | ⟨rfl, rfl⟩, one⟩ := first.within before others padding split some_ pads
    harmless
  · exact ⟨rest, .inl rfl, one.bind second.takes⟩
  · rw [second.split] at some_ one ⊢
    obtain ⟨after, place, two⟩ := second.within [] back padding rfl some_ pads .first
    exact ⟨after, place, one.bind two⟩

theorem bind_second {behind : Layout} (split : back = others ++ behind) (more : others ≠ [])
    (some_ : behind.chars ++ rest ≠ []) (pads : IsPadding padding)
    (harmless : Harmless padding others behind) :
    ∃ after, (after = rest ∨ after = padding ++ rest ∧ behind = []) ∧
      TakesWith parameters (p >>= next)
        (front.chars ++ (others.chars ++ (padding ++ (behind.chars ++ rest)))) b after := by
  have middle_ := second.split
  rw [split, Layout.chars_append, List.append_assoc] at middle_
  have laid := second.laid
  rw [split] at laid
  have one := first.beyond others _ padding more some_ (laid.before some_) middle_ pads
  obtain ⟨after, place, two⟩ := second.within others behind padding split some_ pads harmless
  exact ⟨after, place, one.bind two⟩

theorem bind : Tolerates parameters (p >>= next) text b rest (front ++ back) where
  split := by rw [first.split, second.split, Layout.chars_append, List.append_assoc]
  laid := (second.split ▸ first.laid).append second.laid
  takes := first.takes.bind second.takes
  within := by
    intro before behind padding split some_ pads harmless
    -- A place right behind all that the first reader takes is left to that one: it may end in front of
    -- the padding or behind it.
    rcases List.append_eq_append_iff.mp split with ⟨part, same, rest_⟩ | ⟨part, same, rest_⟩
    · by_cases none_ : part = []
      · subst none_
        rw [List.append_nil] at same
        rw [List.nil_append] at rest_
        subst same rest_
        rw [← second.split] at some_ ⊢
        exact bind_first first second (List.append_nil _).symm some_ pads harmless.before
      · subst same
        rw [Layout.chars_append, List.append_assoc]
        exact bind_second first second rest_ none_ some_ pads (harmless.behind none_)
    · subst rest_
      rw [Layout.chars_append, List.append_assoc, ← second.split] at some_ ⊢
      exact bind_first first second same some_ pads harmless.before
  beyond := by
    intro ahead behind padding some_ more laid split pads
    -- For the first reader all that the second takes stands in front of the place as well.
    have whole : middle = (back ++ ahead).chars ++ behind := by
      rw [second.split, split, Layout.chars_append, List.append_assoc]
    have ahead_ : back ++ ahead ≠ [] := fun none_ => some_ (List.append_eq_nil_iff.mp none_).2
    have one := first.beyond (back ++ ahead) behind padding ahead_ more
      ((split ▸ second.laid).append laid) whole pads
    have two := second.beyond ahead behind padding some_ more laid split pads
    rw [Layout.chars_append, List.append_assoc] at one ⊢
    exact one.bind two

end Bind

theorem of_parameters {next : Properties → Parser α}
    (found : Tolerates parameters (next parameters) text a rest layout) :
    Tolerates parameters (read >>= fun source => next source.parameters) text a rest layout where
  split := found.split
  laid := found.laid
  takes := found.takes
  within := found.within
  beyond := found.beyond

/-- A longer text has room for as many brackets. -/
theorem expression_of_depth {depth : Nat} {e : Expression} (enough : depth ≤ text.length + 1)
    (found : TakesWith parameters (expressionWithin depth) text e rest) :
    TakesWith parameters expression text e rest := by
  intro bytes
  rw [Cypher.expression, Parser.get_run]
  exact expressionWithin_below enough _ _ _ (found bytes)

theorem expression {depth : Nat} {e : Expression} (enough : depth ≤ text.length + 1)
    (found : Tolerates parameters (expressionWithin depth) text e rest layout) :
    Tolerates parameters expression text e rest layout where
  split := found.split
  laid := found.laid
  takes := expression_of_depth enough found.takes
  within := by
    intro front back padding split some_ pads harmless
    obtain ⟨after, place, taken⟩ := found.within front back padding split some_ pads harmless
    refine ⟨after, place, expression_of_depth (Nat.le_trans enough ?_) taken⟩
    rw [found.split, split]
    simp only [Layout.chars_append, List.length_append]
    omega
  beyond := by
    intro ahead behind padding some_ more laid split pads
    refine expression_of_depth (Nat.le_trans enough ?_)
      (found.beyond ahead behind padding some_ more laid split pads)
    rw [found.split, split]
    simp only [List.length_append]
    omega

theorem tokenOf_eq_append (split : tokenOf t = front ++ back) :
    front = [] ∧ back = tokenOf t ∨ t ≠ [] ∧ front = tokenOf t ∧ back = [] := by
  cases front with
  | nil => exact .inl ⟨rfl, split.symm⟩
  | cons piece front =>
      unfold tokenOf at split ⊢
      split at split
      · cases split
      · next letters =>
          obtain ⟨rfl, none_⟩ := List.cons.inj split
          obtain ⟨rfl, rfl⟩ := List.append_eq_nil_iff.mp none_.symm
          exact .inr ⟨fun none_ => letters (List.isEmpty_iff.mpr none_), (if_neg letters).symm, rfl⟩

section Token

variable (lexer : Lexer p) (between : Gaps gaps (t ++ rest))
  (shown : dropBlanks (gaps.chars ++ (t ++ rest)) = t ++ rest)
  (taken : Takes p (gaps.chars ++ (t ++ rest)) a rest)

include lexer between taken

theorem token_before {others : Layout} (split : gaps = front ++ others)
    (some_ : others.chars ++ (t ++ rest) ≠ []) (pads : IsPadding padding) :
    Takes p (front.chars ++ (padding ++ (others.chars ++ (t ++ rest)))) a rest := by
  subst split
  have hides := (between.before some_).hides some_
  rw [Layout.chars_append, List.append_assoc] at taken
  refine lexer.same ?_ taken
  rw [hides, hides, pads.dropBlanks_append]

include shown

/-- Behind the token, where nothing that it shows has changed. -/
theorem token_behind {rest' : List Char} (some_ : t ++ rest ≠ []) (widened : Widened t rest rest')
    (shows : dropBlanks (t ++ rest') = t ++ rest') :
    Takes p (gaps.chars ++ (t ++ rest')) a rest' := by
  obtain ⟨t', same, closed, stays⟩ := lexer.lexes _ _ _ taken
  obtain rfl : t = t' := List.append_cancel_right (shown.symm.trans same)
  refine stays rest' widened _ ?_
  rw [between.hides some_, shows]

theorem token_within (split : gaps ++ tokenOf t = front ++ back) (some_ : back.chars ++ rest ≠ [])
    (pads : IsPadding padding) :
    ∃ after, (after = rest ∨ after = padding ++ rest ∧ back = []) ∧
      Takes p (front.chars ++ (padding ++ (back.chars ++ rest))) a after := by
  have inGaps {others : Layout} (splitGaps : gaps = front ++ others)
      (same : back = others ++ tokenOf t) :
      ∃ after, (after = rest ∨ after = padding ++ rest ∧ back = []) ∧
        Takes p (front.chars ++ (padding ++ (back.chars ++ rest))) a after := by
    subst same
    rw [Layout.chars_append, chars_tokenOf, List.append_assoc] at some_ ⊢
    exact ⟨rest, .inl rfl, token_before lexer between taken splitGaps some_ pads⟩
  rcases List.append_eq_append_iff.mp split with ⟨part, same, rest_⟩ | ⟨part, same, rest_⟩
  · rcases tokenOf_eq_append rest_ with ⟨rfl, same_⟩ | ⟨letters, rfl, rfl⟩
    · have whole : gaps = front ++ [] := by rw [same, List.append_nil, List.append_nil]
      exact inGaps whole same_
    · have stands : dropBlanks (t ++ rest) = t ++ rest := by rw [← shown, dropBlanks_dropBlanks]
      have nonempty : t ++ rest ≠ [] := fun none_ => letters (List.append_eq_nil_iff.mp none_).1
      refine ⟨padding ++ rest, .inr ⟨rfl, rfl⟩, ?_⟩
      rw [same, Layout.chars_append, chars_tokenOf, List.append_assoc]
      exact token_behind lexer between shown taken nonempty (.behind letters (pads.parted [] rest))
        (dropBlanks_continues letters stands (.inr (pads.head rest)))
  · exact inGaps same rest_

theorem token_beyond (laid : Laid front text) (front_ : front ≠ []) (some_ : text ≠ [])
    (split : rest = front.chars ++ text) (pads : IsPadding padding) :
    Takes p (gaps.chars ++ (t ++ (front.chars ++ (padding ++ text)))) a
      (front.chars ++ (padding ++ text)) := by
  subst split
  have stands : dropBlanks (t ++ (front.chars ++ text)) = t ++ (front.chars ++ text) := by
    rw [← shown, dropBlanks_dropBlanks]
  have letters : t ++ front.chars ≠ [] := fun none_ =>
    laid.chars_ne_nil front_ (List.append_eq_nil_iff.mp none_).2
  have nonempty : t ++ (front.chars ++ text) ≠ [] := by
    rw [← List.append_assoc]
    exact fun none_ => letters (List.append_eq_nil_iff.mp none_).1
  refine token_behind lexer between shown taken nonempty ?_ ?_
  · by_cases none_ : t = []
    · subst none_
      exact .of_laid laid front_ some_ pads stands
    · exact .behind none_ (pads.parted _ _)
  · rw [← List.append_assoc] at stands ⊢
    exact dropBlanks_continues letters stands (.inr (pads.head text))

theorem token :
    Tolerates parameters p (gaps.chars ++ (t ++ rest)) a rest (gaps ++ tokenOf t) where
  split := by rw [Layout.chars_append, chars_tokenOf, List.append_assoc]
  laid := by
    have stands : dropBlanks (t ++ rest) = t ++ rest := by rw [← shown, dropBlanks_dropBlanks]
    obtain ⟨t', same, closed, _⟩ := lexer.lexes _ _ _ taken
    obtain rfl : t = t' := List.append_cancel_right (shown.symm.trans same)
    refine Laid.append (by rw [chars_tokenOf]; exact between.laid) ?_
    unfold tokenOf
    split
    · exact .nil rest
    · next some_ =>
        have letters : t ≠ [] := fun none_ => some_ (List.isEmpty_iff.mpr none_)
        exact .token letters stands (closed letters) (.nil rest)
  takes := fun bytes => taken ⟨bytes, parameters⟩
  within := by
    intro front back padding split some_ pads _
    obtain ⟨after, place, found⟩ := token_within lexer between shown taken split some_ pads
    exact ⟨after, place, fun bytes => found ⟨bytes, parameters⟩⟩
  beyond := by
    intro ahead behind padding front_ some_ laid split pads bytes
    rw [Layout.chars_append, chars_tokenOf, List.append_assoc]
    exact token_beyond lexer between shown taken laid front_ some_ split pads ⟨bytes, parameters⟩

end Token

section Item

theorem trim_append {blanks : List Char} (all : ∀ c ∈ blanks, Text.isBlank c = true)
    (text : List Char) : Text.trim (text ++ blanks) = Text.trim text := by
  have reversed : ∀ c ∈ blanks.reverse, Text.isBlank c = true := fun c member =>
    all c (List.mem_reverse.mp member)
  rw [Text.trim, Text.trim, Text.trimStart, Text.trimStart, List.dropWhile_append]
  split
  · next none_ =>
      have dropped := @List.dropWhile_append_of_pos _ _ blanks [] all
      rw [List.append_nil, List.dropWhile_nil] at dropped
      rw [List.isEmpty_iff.mp none_, dropped]
  · rw [List.reverse_append, List.dropWhile_append_of_pos reversed]

theorem withText_takes {listed : List Char} (shown : dropBlanks text = listed ++ rest)
    (found : TakesWith parameters p (listed ++ rest) a rest) :
    TakesWith parameters (withText p) text (a, String.ofList (Text.trim listed)) rest := by
  intro bytes
  have whole : ((withText p).run ⟨bytes, parameters⟩).run text =
      ((p.run ⟨bytes, parameters⟩).run (dropBlanks text)) >>= fun found =>
        .ok ((found.1, String.ofList (Text.trim ((dropBlanks text).take
          ((dropBlanks text).length - found.2.length)))), found.2) := rfl
  rw [whole, shown, found bytes]
  change Except.ok ((a, String.ofList (Text.trim _)), rest) = _
  rw [List.length_append, Nat.add_sub_cancel, List.take_left]

variable (between : Gaps gaps text) (shown : dropBlanks (gaps.chars ++ text) = text)
  (found : Tolerates parameters p text a rest layout)

include between shown found

theorem item_before {others : Layout} (split : gaps = front ++ others)
    (some_ : others.chars ++ text ≠ []) (pads : IsPadding padding) :
    TakesWith parameters (withText p) (front.chars ++ (padding ++ (others.chars ++ text)))
      (a, String.ofList (Text.trim layout.chars)) rest := by
  subst split
  have hides := (between.before some_).hides some_
  rw [Layout.chars_append, List.append_assoc, hides] at shown
  refine withText_takes ?_ (found.split ▸ found.takes)
  rw [hides, pads.dropBlanks_append, shown, found.split]

theorem item_shows {listed more : List Char} (split : text = listed ++ more) (some_ : listed ≠ [])
    (pads : IsPadding padding) :
    dropBlanks (gaps.chars ++ (listed ++ (padding ++ more))) = listed ++ (padding ++ more) := by
  subst split
  have stands : dropBlanks (listed ++ more) = listed ++ more := by
    rw [← shown, dropBlanks_dropBlanks]
  have nonempty : listed ++ more ≠ [] := fun none_ => some_ (List.append_eq_nil_iff.mp none_).1
  rw [between.hides nonempty]
  exact dropBlanks_continues some_ stands (.inr (pads.head more))

theorem item_within (split : layout = front ++ back) (front_ : front ≠ [])
    (some_ : back.chars ++ rest ≠ []) (pads : IsPadding padding)
    (harmless : Harmless padding (gaps ++ front.list) back.list) :
    ∃ after, (after = rest ∨ after = padding ++ rest ∧ back = []) ∧
      TakesWith parameters (withText p)
        (gaps.chars ++ (front.chars ++ (padding ++ (back.chars ++ rest))))
        (a, String.ofList (Text.trim layout.chars)) after := by
  obtain ⟨inside, blank, ahead⟩ := harmless.list front_
  obtain ⟨after, place, taken⟩ := found.within front back padding split some_ pads inside
  have whole := found.split
  have laid := found.laid
  subst split
  rw [Layout.chars_append, List.append_assoc] at whole
  have letters := (laid.before some_).chars_ne_nil front_
  have shows := item_shows between shown found whole letters pads
  refine ⟨after, place, ?_⟩
  rw [Layout.chars_append, trim_append ahead]
  -- Behind the last token the item may end in front of the padding or behind it, which is trimmed.
  rcases place with rfl | ⟨rfl, rfl⟩
  · have blanks : ∀ c ∈ padding ++ back.chars, Text.isBlank c = true :=
      List.forall_mem_append.mpr ⟨blank, ahead⟩
    rw [← trim_append blanks front.chars]
    refine withText_takes ?_ ?_
    · rw [shows, List.append_assoc, List.append_assoc]
    · rwa [List.append_assoc, List.append_assoc]
  · exact withText_takes shows taken

theorem item : Tolerates parameters (withText p) (gaps.chars ++ text)
    (a, String.ofList (Text.trim layout.chars)) rest (gaps ++ layout.list) where
  split := by rw [Layout.chars_append, Layout.chars_list, List.append_assoc, ← found.split]
  laid := by
    refine Laid.append ?_ found.laid.list
    rw [Layout.chars_list, ← found.split]
    exact between.laid
  takes := withText_takes (shown.trans found.split) (found.split ▸ found.takes)
  within := by
    intro front back padding split some_ pads harmless
    have inGaps {others : Layout} (splitGaps : gaps = front ++ others)
        (same : back = others ++ layout.list) :
        ∃ after, (after = rest ∨ after = padding ++ rest ∧ back = []) ∧
          TakesWith parameters (withText p) (front.chars ++ (padding ++ (back.chars ++ rest)))
            (a, String.ofList (Text.trim layout.chars)) after := by
      subst same
      rw [Layout.chars_append, Layout.chars_list, List.append_assoc, ← found.split] at some_ ⊢
      exact ⟨rest, .inl rfl, item_before between shown found splitGaps some_ pads⟩
    rcases List.append_eq_append_iff.mp split with ⟨part, same, rest_⟩ | ⟨part, same, rest_⟩
    · obtain ⟨first, last, same_, rfl, rfl⟩ := List.map_eq_append_iff.mp rest_
      by_cases none_ : first = []
      · subst none_
        have whole : gaps = front ++ [] := by rw [same]; simp
        exact inGaps whole (congrArg Layout.list same_).symm
      · subst same
        change (Layout.list last).chars ++ rest ≠ [] at some_
        change ∃ after, (after = rest ∨ after = padding ++ rest ∧ Layout.list last = []) ∧
          TakesWith parameters (withText p) ((gaps ++ Layout.list first).chars ++
            (padding ++ ((Layout.list last).chars ++ rest)))
            (a, String.ofList (Text.trim layout.chars)) after
        rw [Layout.chars_append, Layout.chars_list, Layout.chars_list, List.append_assoc]
        rw [Layout.chars_list] at some_
        obtain ⟨after, place, taken⟩ := item_within between shown found same_ none_ some_ pads
          harmless
        exact ⟨after, place.imp_right fun both => ⟨both.1, by rw [both.2]; rfl⟩, taken⟩
    · exact inGaps same rest_
  beyond := by
    intro ahead behind padding front_ some_ laid split pads
    have whole := found.split
    rw [split, ← List.append_assoc] at whole
    have letters : layout.chars ++ ahead.chars ≠ [] := fun none_ =>
      laid.chars_ne_nil front_ (List.append_eq_nil_iff.mp none_).2
    have shows := item_shows between shown found whole letters pads
    rw [Layout.chars_append, Layout.chars_list, List.append_assoc]
    rw [List.append_assoc] at shows
    exact withText_takes shows (found.beyond ahead behind padding front_ some_ laid split pads)

end Item

end Tolerates

/-- Whatever is read token by token tolerates blanks between its tokens. -/
theorem Scans.tolerates (scans : Scans parameters p text a rest layout) :
    Tolerates parameters p text a rest layout := by
  induction scans with
  | pure a text => exact .pure a text
  | bind _ _ first second => exact first.bind second
  | token lexer between shown taken => exact .token lexer between shown taken
  | parameters _ found => exact found.of_parameters
  | expression enough _ found => exact found.expression enough
  | item between shown _ found => exact .item between shown found

theorem statement_ends {source : Source} {s : Statement}
    (read : (statement.run source).run text = .ok (s, rest)) : rest = [] := by
  obtain ⟨⟨explain, first⟩, _, read⟩ := bind_eq_ok.mp read
  obtain ⟨⟨query, second⟩, _, read⟩ := bind_eq_ok.mp read
  obtain ⟨⟨_, third⟩, _, read⟩ := bind_eq_ok.mp read
  have last : (((if (dropBlanks third).isEmpty then return Statement.mk explain query else do
      throw (.unexpectedInput (← position) (← snippet)) : Parser Statement).run source).run
        (dropBlanks third)) = .ok (s, rest) := read
  split at last
  · next none_ =>
      cases last
      exact List.isEmpty_iff.mp none_
  · cases last

theorem Scans.explained {bytes : Nat} {middle : List Char} {s : Statement}
    (first : Scans parameters (tryKeyword "EXPLAIN") text true middle front)
    (read : (statement.run ⟨bytes, parameters⟩).run text = .ok (s, rest)) :
    ∃ back, middle = back.chars ++ rest ∧
      Scans parameters statement text s rest (front ++ back) := by
  obtain ⟨⟨here, between⟩, one, two⟩ := bind_eq_ok.mp read
  cases one.symm.trans (first.tolerates.takes bytes)
  obtain ⟨back, query⟩ := Scanned.explained true _ _ _ _ two
  exact ⟨back, query.split, first.bind query⟩

/-- The parser takes the text, and a token that is ahead stands right behind an item. -/
def EndsItem (parameters : Properties) (p : Parser α) (text : List Char) (a : α)
    (rest ahead : List Char) : Prop :=
  ∃ (front back : Layout) (t : List Char),
    Scans parameters p text a rest (front ++ ⟨t, true, false⟩ :: back) ∧
      front.endsListed = true ∧ ahead = t ++ back.chars ++ rest

namespace EndsItem

theorem bind_first (place : EndsItem parameters p text a middle ahead) (others : Scanned (next a))
    (taken : Takes (next a) middle b rest) :
    EndsItem parameters (p >>= next) text b rest ahead := by
  obtain ⟨front, back, t, scans, ends, rfl⟩ := place
  obtain ⟨layout, found⟩ := others middle ⟨0, parameters⟩ b rest (taken _)
  have whole := scans.bind found
  rw [List.append_assoc, List.cons_append] at whole
  refine ⟨front, back ++ layout, t, whole, ends, ?_⟩
  rw [found.split, Layout.chars_append, List.append_assoc, List.append_assoc, List.append_assoc]

theorem bind_second (scanned : Scanned p) (taken : Takes p text a middle)
    (place : EndsItem parameters (next a) middle b rest ahead) :
    EndsItem parameters (p >>= next) text b rest ahead := by
  obtain ⟨front, back, t, scans, ends, rfl⟩ := place
  obtain ⟨layout, found⟩ := scanned _ ⟨0, parameters⟩ a middle (taken _)
  have whole := found.bind scans
  rw [← List.append_assoc] at whole
  have some_ : front ≠ [] := by
    rintro rfl
    cases ends
  exact ⟨layout ++ front, back, t, whole, (Layout.endsListed_append some_ layout).trans ends, rfl⟩

theorem separated {e : Expression} {items : List ReturnItem} {written : List Char}
    (split : text = written ++ ',' :: middle) (some_ : written ≠ [])
    (shown : dropBlanks text = text) (item : Takes expression text e (',' :: middle))
    (others : Takes (separated returnItem) middle items rest) :
    EndsItem parameters (Cypher.separated returnItem) text
      (⟨e, none, String.ofList (Text.trim written)⟩ :: items) rest (',' :: middle) := by
  obtain ⟨one, first⟩ := Scanned.expression _ ⟨0, parameters⟩ e _ (item _)
  obtain ⟨more, second⟩ := Scanned.returnItem.separated _ ⟨0, parameters⟩ items _ (others _)
  obtain rfl : written = one.chars := List.append_cancel_right (split.symm.trans first.split)
  have whole : Scans parameters (withText expression) text _ _ one.list :=
    @Scans.item parameters _ _ [] _ _ _ _ (.nil _) shown first
  have absent : Scans parameters (tryKeyword "AS") (',' :: middle) false (',' :: middle) [] :=
    @Scans.token parameters _ _ [] [] _ _ (.keyword (by decide)) (.nil _) rfl
      (tryKeyword_absent rfl)
  have unnamed : Scans parameters (keyword? "AS" name) (',' :: middle) none (',' :: middle) [] :=
    absent.bind (.pure _ _)
  have comma : Scans parameters (tryChar ',') (',' :: middle) true middle [⟨[','], true, false⟩] :=
    @Scans.token parameters _ _ [] [','] _ _ (.char (by decide)) (.nil _) rfl (tryChar_found rfl)
  have named : Scans parameters returnItem text
      ⟨e, none, String.ofList (Text.trim one.chars)⟩ (',' :: middle) (one.list ++ []) :=
    whole.bind (unnamed.bind (.pure _ _))
  have joined : Scans parameters (Cypher.separated returnItem >>= fun items =>
      Pure.pure (⟨e, none, String.ofList (Text.trim one.chars)⟩ :: items)) middle _ rest
      (more ++ []) := second.bind (.pure _ _)
  have listed : one ≠ [] := fun none_ => some_ (by rw [none_, Layout.chars_nil])
  rw [List.append_nil] at named joined
  rw [separated_eq Scanned.returnItem.shortens]
  refine ⟨one.list, more, [','], named.bind (comma.bind joined), Layout.endsListed_list listed, ?_⟩
  rw [second.split, List.singleton_append, List.cons_append]

end EndsItem

theorem one_endsItem : ∃ s, EndsItem [] statement "RETURN 1, 2".toList s [] ", 2".toList := by
  have items : EndsItem [] (separated returnItem) "1, 2".toList
      [⟨.literal (.int 1), none, "1"⟩, ⟨.literal (.int 2), none, "2"⟩] [] ", 2".toList :=
    .separated (show "1, 2".toList = ['1'] ++ _ from rfl) (by simp) rfl (fun _ => rfl) fun _ => rfl
  have clause : EndsItem [] returnClause " 1, 2".toList _ [] ", 2".toList :=
    .bind_second (Scanned.tryKeyword (by decide) : Scanned (tryKeyword "DISTINCT")) (fun _ => rfl)
      (items.bind_first (Scanned.arranged false _) fun _ => rfl)
  have returned : EndsItem [] (keyword? "RETURN" returnClause) "RETURN 1, 2".toList _ []
      ", 2".toList :=
    .bind_second (Scanned.tryKeyword (by decide) : Scanned (tryKeyword "RETURN")) (fun _ => rfl)
      (clause.bind_first (.pure _) fun _ => rfl)
  have creates : Scanned (keyword? "CREATE" patterns) := Scanned.patterns.keyword (by decide)
  have sets : Scanned (keyword? "SET" (separated setItem)) :=
    Scanned.setItem.separated.keyword (by decide)
  have query : EndsItem [] query "RETURN 1, 2".toList _ [] ", 2".toList :=
    .bind_second Scanned.matchClauses (fun _ => rfl) <| .bind_second creates (fun _ => rfl) <|
      .bind_second sets (fun _ => rfl) <| .bind_second Scanned.deleteClause? (fun _ => rfl) <|
      returned.bind_first (.choice (.of_fails (.then_ fun _ => .throw _)) (.pure _)) fun _ => rfl
  exact ⟨_, .bind_second (Scanned.tryKeyword (by decide) : Scanned (tryKeyword "EXPLAIN"))
    (fun _ => rfl) (query.bind_first (Scanned.closed false _) fun _ => rfl)⟩

end Cypher

open Cypher

/-- What is read is read token by token, and a blank between two tokens, alone or with comments
behind it, makes no difference to it, if it does not stand inside an item. Behind the last token of
an item blanks alone make none. -/
theorem Statement.padding_between_tokens_makes_no_difference {text : String}
    {parameters : Properties} {s : Statement}
    (parsed : Statement.parse text parameters = .ok s) :
    (∃ layout, Scans parameters statement text.toList s [] layout) ∧
    ∀ front back padding, Scans parameters statement text.toList s [] (front ++ back) →
      back ≠ [] → IsPadding padding → Layout.splitsItem front back = false →
      KeepsText padding front back →
      Statement.parse (String.ofList (front.chars ++ (padding ++ back.chars))) parameters =
        .ok s := by
  obtain ⟨⟨found, rest⟩, read, same⟩ := bind_eq_ok.mp parsed
  cases same
  obtain rfl := statement_ends read
  refine ⟨Scanned.statement _ _ _ _ read, ?_⟩
  intro front back padding scans some_ pads outside keeps
  have tolerates := scans.tolerates
  have letters := tolerates.laid.behind.chars_ne_nil some_
  obtain ⟨after, place, taken⟩ := tolerates.within front back padding rfl
    (by rwa [List.append_nil]) pads ⟨outside, keeps⟩
  rw [List.append_nil] at taken
  have again := taken (Text.byteLength (front.chars ++ (padding ++ back.chars)))
  rw [Statement.parse, String.toList_ofList]
  exact bind_eq_ok.mpr ⟨_, again, rfl⟩

theorem Statement.exists_of_isOk {text : String} {parameters : Properties}
    (reads : (Statement.parse text parameters).isOk = true) :
    ∃ s, Statement.parse text parameters = .ok s := by
  cases read : Statement.parse text parameters with
  | error fault =>
      rw [read] at reads
      cases reads
  | ok s => exact ⟨s, rfl⟩

/-- A comment between EXPLAIN and the query, and a blank behind the last token of an item. -/
theorem Statement.comment_and_blank_make_no_difference :
    (∃ s, Statement.parse "EXPLAIN RETURN 1" [] = .ok s ∧
      Statement.parse "EXPLAIN /* plan */ RETURN 1" [] = .ok s) ∧
    ∃ s, Statement.parse "RETURN 1, 2" [] = .ok s ∧
      Statement.parse "RETURN 1 , 2" [] = .ok s := by
  constructor
  · obtain ⟨s, parsed⟩ := Statement.exists_of_isOk
      (by decide +kernel : (Statement.parse "EXPLAIN RETURN 1" []).isOk = true)
    have explain : Scans [] (tryKeyword "EXPLAIN") "EXPLAIN RETURN 1".toList true
        " RETURN 1".toList [⟨"EXPLAIN".toList, true, false⟩] :=
      @Scans.token [] _ _ [] "EXPLAIN".toList _ _ (.keyword (by decide)) (.nil _)
        (by decide +kernel) (tryKeyword_found (by decide +kernel))
    have pads : IsPadding " /* plan */".toList :=
      @IsPadding.intro ' ' ["/* plan */".toList] (by decide)
        (List.forall_mem_singleton.mpr (@IsGap.block " plan ".toList (by decide)))
    obtain ⟨⟨_, rest⟩, read, same⟩ := bind_eq_ok.mp parsed
    cases same
    obtain rfl := statement_ends read
    obtain ⟨back, query, scans⟩ := explain.explained read
    have some_ : back ≠ [] := by
      rintro rfl
      exact absurd query (by decide)
    have padded := (Statement.padding_between_tokens_makes_no_difference parsed).2
      [⟨"EXPLAIN".toList, true, false⟩] back _ scans some_ pads rfl nofun
    rw [List.append_nil] at query
    rw [← query] at padded
    exact ⟨_, parsed, padded⟩
  · obtain ⟨s, front, back, t, scans, _, ahead⟩ := one_endsItem
    have parsed : Statement.parse "RETURN 1, 2" [] = .ok s :=
      bind_eq_ok.mpr ⟨(s, []), scans.tolerates.takes _, rfl⟩
    rw [List.append_nil] at ahead
    have split : "RETURN 1".toList ++ ", 2".toList = front.chars ++ (t ++ back.chars) := by
      have whole := scans.split
      rwa [List.append_nil, Layout.chars_append, Layout.chars_cons] at whole
    rw [← ahead] at split
    have reaches : "RETURN 1".toList = front.chars := List.append_cancel_right split
    have padded := (Statement.padding_between_tokens_makes_no_difference parsed).2 front
      (⟨t, true, false⟩ :: back) _ scans (List.cons_ne_nil _ _)
      (@IsPadding.intro ' ' [] (by decide) nofun) (Bool.and_false _)
      fun _ => ⟨List.forall_mem_singleton.mpr (by decide), nofun⟩
    rw [Layout.chars_cons, ← reaches, ← ahead] at padded
    exact ⟨s, parsed, padded⟩

/-- A comment behind an item is taken for a part of it. -/
theorem Statement.comment_behind_item_names_the_column :
    (∃ s, Statement.parse "RETURN 1, 2" [] = .ok s ∧
      s.query.return_.map (·.items.map ReturnItem.column) = some ["1", "2"]) ∧
    ∃ s, Statement.parse "RETURN 1 /* one */, 2" [] = .ok s ∧
      s.query.return_.map (·.items.map ReturnItem.column) = some ["1 /* one */", "2"] := by
  have columns {text : String} {names : List String}
      (checked : (match Statement.parse text [] with
        | .ok s => s.query.return_.map (·.items.map ReturnItem.column) == some names
        | .error _ => false) = true) :
      ∃ s, Statement.parse text [] = .ok s ∧
        s.query.return_.map (·.items.map ReturnItem.column) = some names := by
    split at checked
    · next s read => exact ⟨s, read, beq_iff_eq.mp checked⟩
    · cases checked
  exact ⟨columns (by decide +kernel), columns (by decide +kernel)⟩
end PropertyGraph
