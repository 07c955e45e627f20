import PropertyGraph.Proofs.Cypher.Operands

/-!
The tightest expressions: what stands in brackets, literals, names, properties and calls.
-/

namespace PropertyGraph.Cypher

variable {α : Type} {follows : List Char → Prop} {nested : Parser Expression}
  {tokens : List Token} {e : Expression}

section Separated

variable {item : Parser α} {inner : List Char → Prop} {parts : List (List Token)} {items : List α}

theorem separatedFrom_succ (fuel : Nat) : separatedFrom item (fuel + 1) = (do
    let first ← item
    if ← tryChar ',' then return first :: (← separatedFrom item fuel)
    return [first]) := rfl

/-- What may stand behind the last of some items. -/
structure EndsList (inner : List Char → Prop) (rest : List Char) : Prop where
  fits : inner rest
  comma : (dropBlanks rest).head? ≠ some ','

theorem length_le_commas (parts : List (List Token)) :
    parts.length ≤ (commas parts).length + 1 := by
  fun_induction commas parts with
  | case1 => exact Nat.zero_le _
  | case2 tokens => exact Nat.succ_le_succ (Nat.zero_le _)
  | case3 tokens rest _ ih =>
      simp only [List.length_append, List.length_cons] at ih ⊢
      omega

theorem separatedFrom_parses (comma : ∀ rest, inner (' ' :: ',' :: rest))
    (each : List.Forall₂ (Parses inner item) parts items) (some_ : items ≠ []) {fuel : Nat}
    (enough : items.length ≤ fuel + 1) :
    Parses (EndsList inner) (separatedFrom item fuel) (commas parts) items := by
  induction each generalizing fuel with
  | nil => exact absurd rfl some_
  | @cons tokens a parts items first others ih =>
      have alone (fuel : Nat) : Parses (EndsList inner) (separatedFrom item fuel) tokens [a] := by
        cases fuel with
        | zero => exact (first.weaken fun rest ends => ends.fits).last rfl
        | succ fuel =>
            have lacking : Parses (EndsList inner) (tryChar ',') [] false :=
              (tryChar_misses ',').weaken fun rest ends => ends.comma
            have one : Parses (EndsList inner) (separatedFrom item (fuel + 1)) (tokens ++ [])
                [a] := by
              rw [separatedFrom_succ]
              refine first.bind ?_ fun rest ends => ends.fits
              exact lacking.look (.pure [a]) fun rest ends => ends
            rwa [List.append_nil] at one
      cases others with
      | nil => exact alone fuel
      | cons second others =>
          obtain ⟨fuel, rfl⟩ : ∃ n, fuel = n + 1 := ⟨fuel - 1, by
            simp only [List.length_cons] at enough
            omega⟩
          have later := ih (List.cons_ne_nil _ _) (Nat.le_of_succ_le_succ enough)
          rw [separatedFrom_succ]
          refine first.bind ?_ fun rest ends => comma _
          exact .mark rfl (by decide) (later.last rfl)

theorem separated_parses (comma : ∀ rest, inner (' ' :: ',' :: rest))
    (each : List.Forall₂ (Parses inner item) parts items) (begins : Begins (commas parts)) :
    Parses (EndsList inner) (separated item) (commas parts) items := by
  refine .of_get fun text rest skipped ends => ?_
  have many := begins.length_le skipped
  have short := length_le_commas parts
  have same := each.length_eq
  refine separatedFrom_parses comma each ?_ (by omega) text rest skipped ends
  rintro rfl
  cases each
  obtain ⟨_, _, nothing, _⟩ := begins
  cases nothing

end Separated

/-- Expressions that are read at the loosest level, with what they begin with. -/
def Nests (nested : Parser Expression) (tokens : List Token) (e : Expression) : Prop :=
  Heads 0 tokens ∧ Parses (Stops 0) nested tokens e

section Items

variable {parts : List (List Token)} {items : List Expression}

theorem begins_commas (first : Begins tokens) (rest : List (List Token)) :
    Begins (commas (tokens :: rest)) := by
  cases rest with
  | nil => exact first
  | cons second others => exact first.append _

theorem spaced_commas (tokens : List Token) (rest : List (List Token)) :
    ∃ more, commas (tokens :: rest) = tokens ++ more := by
  cases rest with
  | nil => exact ⟨[], (List.append_nil tokens).symm⟩
  | cons second others => exact ⟨_, rfl⟩

theorem commas_lacks (heads : Heads 0 tokens) (rest : List (List Token)) {words : List String}
    {marks after : List Char} (included : words ⊆ barredWords 0)
    (includedToo : marks ⊆ barredMarks 0)
    (spaces : Spaced after) : Lacks words marks (spaced (commas (tokens :: rest)) ++ after) := by
  obtain ⟨more, same⟩ := spaced_commas tokens rest
  rw [same]
  exact ((heads.append more).absent after spaces).imp included includedToo

/-- What closes brackets. -/
structure Closes (close : Char) : Prop where
  visible : Text.isBlank close = false
  other : close ≠ '/'
  comma : close ≠ ','
  member : close ∈ [')', ']', '}', ',']
  barred : close ∈ barredMarks 0

theorem Closes.parenthesis : Closes ')' := by constructor <;> decide

theorem Closes.bracket : Closes ']' := by constructor <;> decide

theorem Closes.brace : Closes '}' := by constructor <;> decide

theorem Closes.ends {close : Char} (closes : Closes close) (rest : List Char) :
    EndsList (Stops 0) (' ' :: close :: rest) := by
  refine ⟨.of_mark closes.member 0 rest, ?_⟩
  have shown := (Visible.of_head closes.visible closes.other []).dropBlanks_eq rest
  rw [List.singleton_append] at shown
  rw [shown]
  intro same
  exact closes.comma (Option.some.inj same)

theorem Closes.parses {close : Char} (closes : Closes close) :
    Parses follows (expectChar close) [[close]] () :=
  expectChar_parses closes.visible closes.other

/-- Items up to the bracket that closes them, if none of them begins with that. -/
theorem closed_parses {item : Parser α} {items : List α} {close : Char} (closes : Closes close)
    (each : List.Forall₂ (Parses (Stops 0) item) parts items)
    (begins : ∀ part ∈ parts, Begins part)
    (apart : ∀ part ∈ parts, ∀ rest, Spaced rest → Lacks [] [close] (spaced part ++ rest)) :
    Parses follows (do
        if ← tryChar close then return []
        let items ← separated item
        expectChar close
        return items) (commas parts ++ [[close]]) items := by
  cases parts with
  | nil =>
      cases each
      exact (tryChar_parses closes.visible closes.other).bind (.pure []) fun rest ends => ends
  | cons part parts =>
      have first : part ∈ part :: parts := List.mem_cons_self
      have inside : Parses (EndsList (Stops 0)) (separated item) (commas (part :: parts)) items :=
        separated_parses (fun rest => .of_mark (by decide) 0 rest) each
          (begins_commas (begins part first) parts)
      have whole : Parses follows (do
          let items ← separated item
          expectChar close
          return items) (commas (part :: parts) ++ [[close]]) items :=
        inside.bind (closes.parses.last rfl) fun rest _ => closes.ends rest
      refine .noMark whole fun rest _ => ?_
      obtain ⟨more, same⟩ := spaced_commas part parts
      rw [same, List.append_assoc, spaced_append, List.append_assoc]
      apply apart part first
      rw [spaced_append, List.append_assoc]
      exact Spaced.tokens more (.inr ⟨_, rfl⟩)

theorem forall_left {β γ : Type} {R : β → γ → Prop} {P : β → Prop} {first : List β}
    {second : List γ} (related : List.Forall₂ R first second) (holds : ∀ b c, R b c → P b) :
    ∀ b ∈ first, P b := by
  have both : List.Forall₂ (fun b c => P b ∧ R b c) first second :=
    related.imp fun b c here => ⟨holds b c here, here⟩
  exact ((List.forall₂_and_left first second).mp both).1

theorem itemsUntil_parses {close : Char} (closes : Closes close)
    (each : List.Forall₂ (Nests nested) parts items) :
    Parses follows (itemsUntil close nested) (commas parts ++ [[close]]) items := by
  refine closed_parses closes (each.imp fun _ _ nests => nests.2)
    (forall_left each fun _ _ nests => nests.1.begins) ?_
  refine forall_left each fun part e nests rest spaces => ?_
  apply (nests.1.absent rest spaces).imp (List.nil_subset _)
  exact List.cons_subset.mpr ⟨closes.barred, List.nil_subset _⟩

theorem mapKey_parses (key : String) : Parses Spaced mapKey [keyToken key] key := by
  unfold keyToken
  split
  · next bare =>
      refine string?_misses.look (a := none) (name_parses bare) fun rest spaces => ?_
      obtain ⟨c, more, same, begins, _⟩ := isBareName_cases bare
      have shown := (Visible.of_name bare).dropBlanks_eq rest
      rw [spaced_cons, spaced_nil, List.append_nil, List.cons_append, shown, same]
      have quote (d : Char) (other : beginsBare d = false) : decide (c = d) = false :=
        decide_eq_false (ne_of_beginsBare begins other)
      exact (Bool.or_eq_false_iff).mpr ⟨quote '"' (by decide), quote '\'' (by decide)⟩
  · exact (string?_parses (quoted_isLiteral key)).bind (a := some key) (.pure key)
      fun rest spaces => spaces

theorem mapEntry_parses {key : String} (inside : Parses (Stops 0) nested tokens e) :
    Parses (Stops 0) (mapEntry nested) (keyToken key :: [':'] :: tokens) (key, e) := by
  have colon : Parses (fun _ => True) (expectChar ':') [[':']] () :=
    expectChar_parses rfl (by decide)
  refine (mapKey_parses key).bind ?_ fun rest _ => .inr ⟨_, rfl⟩
  exact colon.bind (inside.last rfl) fun rest _ => trivial

theorem keyToken_visible (key : String) : Visible (keyToken key) := by
  unfold keyToken
  split
  · next bare => exact .of_name bare
  · exact .of_head rfl (by decide) _

theorem keyToken_lacks (key : String) {rest : List Char} (spaces : Spaced rest) :
    Lacks [] ['}'] (' ' :: (keyToken key ++ rest)) := by
  unfold keyToken
  split
  · next bare => exact .of_name bare spaces (List.forall_mem_nil _) rfl
  · rfl

variable {entries : List (String × Expression)}

/-- A key and an expression behind a colon. -/
def NestsEntry (nested : Parser Expression) (part : List Token) (entry : String × Expression) :
    Prop :=
  ∃ tokens, part = keyToken entry.1 :: [':'] :: tokens ∧ Parses (Stops 0) nested tokens entry.2

theorem mapEntries_parses (each : List.Forall₂ (NestsEntry nested) parts entries) :
    Parses follows (mapEntries nested) (commas parts ++ [['}']]) entries := by
  refine closed_parses .brace (each.imp ?_) (forall_left each ?_) (forall_left each ?_)
  · rintro part ⟨key, e⟩ ⟨tokens, rfl, inside⟩
    exact mapEntry_parses inside
  · rintro part entry ⟨tokens, rfl, _⟩
    exact ⟨_, _, rfl, keyToken_visible entry.1⟩
  · rintro part entry ⟨tokens, rfl, _⟩ rest spaces
    rw [spaced_cons, List.cons_append, List.append_assoc]
    exact keyToken_lacks entry.1 (spaces.tokens _)

end Items

namespace ReadsAt

theorem of_primary (heads : Heads 8 tokens) (parses : Parses (Stops 8) (primary nested) tokens e) :
    ReadsAt nested 8 tokens e :=
  ⟨heads, parses, fun grouped => absurd grouped (by decide)⟩

theorem enclosed (inside : Parses (Stops 0) nested tokens e) :
    ReadsAt nested 8 (['('] :: tokens ++ [[')']]) e := by
  have closes := Closes.parenthesis
  refine of_primary ⟨⟨_, _, rfl, .of_head rfl (by decide) _⟩, fun rest spaces => rfl⟩ ?_
  refine .mark rfl (by decide) ?_
  exact inside.bind (closes.parses.last rfl) fun rest stops => (closes.ends rest).fits

theorem list {parts : List (List Token)} {items : List Expression}
    (each : List.Forall₂ (Nests nested) parts items) :
    ReadsAt nested 8 (['['] :: commas parts ++ [[']']]) (listOf items) := by
  refine of_primary ⟨⟨_, _, rfl, .of_head rfl (by decide) _⟩, fun rest spaces => rfl⟩ ?_
  refine .noMark ?_ fun rest stops => rfl
  refine .mark rfl (by decide) ?_
  exact (itemsUntil_parses .bracket each).last rfl

theorem map {parts : List (List Token)} {entries : List (String × Expression)}
    (each : List.Forall₂ (NestsEntry nested) parts entries) :
    ReadsAt nested 8 (['{'] :: commas parts ++ [['}']]) (mapOf entries) := by
  refine of_primary ⟨⟨_, _, rfl, .of_head rfl (by decide) _⟩, fun rest spaces => rfl⟩ ?_
  refine .noMark ?_ fun rest stops => rfl
  refine .noMark ?_ fun rest stops => rfl
  refine .mark rfl (by decide) ?_
  exact (mapEntries_parses each).last rfl

end ReadsAt

/-- What is read behind a name. -/
def behindName (nested : Parser Expression) (word : String) : Parser Expression := do
  if isReserved word then throw (.unexpectedKeyword word)
  if ← tryChar '(' then return ← call nested word
  if ← tryChar '.' then return .property word (← name)
  return .reference word

/-- What is read where no bracket, no text and no number begins. -/
def word (nested : Parser Expression) : Parser Expression := do
  if ← tryKeyword "TRUE" then return .literal (.bool true)
  if ← tryKeyword "FALSE" then return .literal (.bool false)
  if ← tryKeyword "NULL" then return .literal .null
  unless ← atName do
    throw (.expectedExpression (← position) (← snippet))
  behindName nested (← name)

/-- What is read where no bracket and no parameter begins. -/
def bare (nested : Parser Expression) : Parser Expression := do
  match ← string? with
  | some s => return .literal (.string s)
  | none =>
      if ← atDigit then return .literal (← number)
      word nested

theorem primary_parses (absent : ∀ rest, follows rest →
      Lacks [] ['(', '[', '{', '$'] (spaced tokens ++ rest))
    (parses : Parses follows (bare nested) tokens e) :
    Parses follows (primary nested) tokens e := by
  have missing {c : Char} (member : c ∈ ['(', '[', '{', '$']) (rest : List Char)
      (ends : follows rest) : Lacks [] [c] (spaced tokens ++ rest) :=
    (absent rest ends).imp (List.Subset.refl _) (List.cons_subset.mpr ⟨member, List.nil_subset _⟩)
  apply Parses.noMark _ (missing (by decide))
  apply Parses.noMark _ (missing (by decide))
  apply Parses.noMark _ (missing (by decide))
  apply Parses.noMark _ (missing (by decide))
  exact parses

theorem atDigit_takes (text : List Char) : Takes atDigit text (text.head?.any isDigit) text :=
  fun _ => rfl

theorem atName_takes (text : List Char) : Takes atName text (text.head?.any startsName) text :=
  fun _ => rfl

theorem bare_parses (plain : ∀ rest, follows rest →
      (dropBlanks (spaced tokens ++ rest)).head?.any isQuote = false ∧
        (dropBlanks (spaced tokens ++ rest)).head?.any isDigit = false)
    (parses : Parses follows (word nested) tokens e) : Parses follows (bare nested) tokens e := by
  intro text rest skipped ends
  obtain ⟨quote, digit⟩ := plain rest ends
  have shown : dropBlanks text = dropBlanks (spaced tokens ++ rest) := skipped.dropBlanks_eq
  obtain ⟨after, behind, taken⟩ := parses (dropBlanks text) rest (shown ▸ .blanks _) ends
  have noText : Takes string? text none (dropBlanks text) := string?_absent (by rwa [shown])
  refine ⟨after, behind, noText.bind ((atDigit_takes _).bind ?_)⟩
  rw [shown, digit]
  rw [shown] at taken
  exact taken

theorem word_parses {name : String} (plain : isBareName name = true)
    (other : isLiteralWord name = false) (spaces : ∀ rest, follows rest → Spaced rest)
    (parses : Parses follows (behindName nested name) tokens e) :
    Parses follows (word nested) (name.toList :: tokens) e := by
  intro text rest skipped ends
  have shown := skipped.first (.of_name plain)
  have spaced_ : Spaced (spaced tokens ++ rest) := (spaces rest ends).tokens tokens
  have skipped_ : Skipped (' ' :: (name.toList ++ (spaced tokens ++ rest))) text := by
    rwa [spaced_cons, List.cons_append, List.append_assoc] at skipped
  have again : dropBlanks (dropBlanks text) = dropBlanks text := dropBlanks_dropBlanks text
  have absent : Lacks ["TRUE", "FALSE", "NULL"] [] text :=
    (Lacks.of_word plain spaced_ other (List.Subset.refl _) (by decide)
      rfl).of_skipped skipped_
  have missing {word : String} (member : word ∈ ["TRUE", "FALSE", "NULL"]) :
      Takes (tryKeyword word) (dropBlanks text) false (dropBlanks text) := by
    have none_ : Takes (tryKeyword word) (dropBlanks text) false (dropBlanks (dropBlanks text)) :=
      tryKeyword_absent (by rw [again]; exact absent.word member)
    rwa [again] at none_
  obtain ⟨after, between, takenName⟩ := name_parses plain (dropBlanks text) (spaced tokens ++ rest)
    (.inr (by rw [skipped_.dropBlanks_eq, spaced_cons, spaced_nil, List.append_nil]; rfl)) spaced_
  obtain ⟨final, behind, takenNext⟩ := parses after rest between ends
  refine ⟨final, behind, (tryKeyword_absent (absent.word (by decide))).bind
    ((missing (by decide)).bind ((missing (by decide)).bind ((atName_takes _).bind ?_)))⟩
  have here : (dropBlanks text).head?.any startsName = true := by
    obtain ⟨c, more, same, begins, _⟩ := isBareName_cases plain
    rw [shown, same]
    exact (Bool.or_eq_true _ _).mpr (.inl begins)
  rw [here]
  exact takenName.bind takenNext

theorem name_plain {name : String} (plain : isBareName name = true) (rest : List Char) :
    (dropBlanks (' ' :: (name.toList ++ rest))).head?.any isQuote = false ∧
      (dropBlanks (' ' :: (name.toList ++ rest))).head?.any isDigit = false := by
  obtain ⟨c, more, same, begins, _⟩ := isBareName_cases plain
  rw [(Visible.of_name plain).dropBlanks_eq, same, List.cons_append, List.head?_cons,
    Option.any_some, Option.any_some]
  constructor
  · apply Bool.or_eq_false_iff.mpr
    exact ⟨decide_eq_false (ne_of_beginsBare begins (by decide)),
      decide_eq_false (ne_of_beginsBare begins (by decide))⟩
  · apply eq_false_of_ne_true
    intro digit
    rw [(isDigit_cases digit).2.1] at begins
    cases begins

namespace ReadsAt

theorem named {name : String} (plain : isBareName name = true) (free : isReserved name = false)
    (other : isLiteralWord name = false)
    (parses : Parses (Stops 8) (behindName nested name) tokens e) :
    ReadsAt nested 8 (name.toList :: tokens) e := by
  have heads : Heads 8 (name.toList :: tokens) := by
    refine ⟨⟨_, _, rfl, .of_name plain⟩, fun rest spaces => ?_⟩
    rw [spaced_cons, List.cons_append, List.append_assoc]
    exact .of_word plain (spaces.tokens tokens) free (by decide) (by decide) (by decide)
  apply of_primary heads
  apply primary_parses
  · intro rest stops
    rw [spaced_cons, List.cons_append, List.append_assoc]
    exact .of_name plain (stops.spaces.tokens tokens) (List.forall_mem_nil _) (by decide)
  apply bare_parses
  · intro rest stops
    rw [spaced_cons, List.cons_append, List.append_assoc]
    exact name_plain plain _
  exact word_parses plain other (fun rest stops => stops.spaces) parses

theorem reference {name : String} (plain : isBareName name = true)
    (free : isReserved name = false) (other : isLiteralWord name = false) :
    ReadsAt nested 8 [name.toList] (.reference name) := by
  have missing {c : Char} (member : c ∈ fromLevel 8 continuingMarks) :
      Parses (Stops 8) (tryChar c) [] false :=
    (tryChar_lacking member).weaken fun _ stops => stops.absent
  apply named plain free other
  rw [behindName, free]
  apply (missing (by decide)).look _ fun _ stops => stops
  apply (missing (by decide)).look _ fun _ stops => stops
  exact .pure _

theorem property {owner key : String} (plain : isBareName owner = true)
    (free : isReserved owner = false) (other : isLiteralWord owner = false)
    (plainKey : isBareName key = true) :
    ReadsAt nested 8 [owner.toList, ['.'], key.toList] (.property owner key) := by
  apply named plain free other
  rw [behindName, free]
  refine .noMark ?_ fun _ stops => rfl
  refine .mark rfl (by decide) ?_
  exact ((name_parses plainKey).weaken fun _ stops => stops.spaces).last rfl

theorem arguments_lack {parts : List (List Token)} {arguments : List Expression}
    (each : List.Forall₂ (Nests nested) parts arguments) (rest : List Char) :
    Lacks ["DISTINCT"] ['*'] (spaced (commas parts ++ [[')']]) ++ rest) := by
  cases each with
  | nil => rfl
  | cons first others =>
      rw [spaced_append, List.append_assoc]
      exact commas_lacks first.1 _ (by decide) (by decide) (.inr ⟨_, rfl⟩)

theorem arguments_parses (name : String) (distinct : Bool) {parts : List (List Token)}
    {arguments : List Expression} (each : List.Forall₂ (Nests nested) parts arguments) :
    Parses follows (do
        let distinct ← tryKeyword "DISTINCT"
        return Expression.call name distinct (← itemsUntil ')' nested))
      ((if distinct then ["DISTINCT".toList] else []) ++ (commas parts ++ [[')']]))
      (.call name distinct arguments) := by
  have items : Parses follows (itemsUntil ')' nested) (commas parts ++ [[')']]) arguments :=
    itemsUntil_parses .parenthesis each
  cases distinct with
  | true =>
      refine (tryKeyword_parses (by decide)).bind (items.last rfl) fun rest _ => ?_
      rw [spaced_append, List.append_assoc]
      exact Spaced.tokens (commas parts) (.inr ⟨_, rfl⟩)
  | false =>
      refine .noKeyword (items.last rfl) fun rest _ => ?_
      exact (arguments_lack each rest).imp (List.Subset.refl _) (List.nil_subset _)

theorem call_parses (written : String) (distinct : Bool) {parts : List (List Token)}
    {arguments : List Expression} (each : List.Forall₂ (Nests nested) parts arguments) :
    Parses follows (Cypher.call nested written)
      ((if distinct then ["DISTINCT".toList] else []) ++ (commas parts ++ [[')']]))
      (.call (String.ofList (Text.lowercase written.toList)) distinct arguments) := by
  unfold Cypher.call
  dsimp only
  split
  · refine .noMark (arguments_parses _ distinct each) fun rest _ => ?_
    cases distinct with
    | true => rfl
    | false => exact (arguments_lack each rest).imp (List.nil_subset _) (List.Subset.refl _)
  · exact arguments_parses _ distinct each

theorem call {written : String} (plain : isBareName written = true)
    (free : isReserved written = false) (other : isLiteralWord written = false) (distinct : Bool)
    {parts : List (List Token)} {arguments : List Expression}
    (each : List.Forall₂ (Nests nested) parts arguments) :
    ReadsAt nested 8 (written.toList :: ['('] :: (if distinct then ["DISTINCT".toList] else []) ++
        (commas parts ++ [[')']]))
      (.call (String.ofList (Text.lowercase written.toList)) distinct arguments) := by
  apply named plain free other
  rw [behindName, free]
  exact .mark rfl (by decide) (call_parses written distinct each)

theorem countAll : ReadsAt nested 8 ["count".toList, ['('], ['*'], [')']] .countAll := by
  apply named rfl (by decide) (by decide)
  rw [behindName, if_neg (by decide)]
  refine .mark rfl (by decide) ?_
  refine .mark rfl (by decide) ?_
  exact Closes.parenthesis.parses.last rfl

theorem string {token : Token} {s : String} (literal : IsLiteral token s) :
    ReadsAt nested 8 [token] (.literal (.string s)) := by
  have visible := literal.visible
  have parses : Parses (Stops 8) string? [token] (some s) := string?_parses literal
  obtain ⟨marks, _⟩ := literal
  rcases isQuote_cases marks with rfl | rfl <;>
    exact of_primary ⟨⟨_, _, rfl, visible⟩, fun rest spaces => rfl⟩ (primary_parses
      (fun rest stops => rfl) (parses.bind (a := some s) (.pure _) fun rest stops => stops))

theorem number {n : Nat} (fits : n < twoTo 63) :
    ReadsAt nested 8 [digitChars n] (.literal (.int (Int64.ofInt n))) := by
  have heads : Heads 8 [digitChars n] := by
    refine ⟨⟨_, _, rfl, .of_number n⟩, fun rest spaces => ?_⟩
    rw [spaced_cons, spaced_nil, List.append_nil, List.cons_append]
    exact .of_number n (by decide) (by decide)
  apply of_primary heads
  apply primary_parses
  · intro rest stops
    rw [spaced_cons, spaced_nil, List.append_nil, List.cons_append]
    exact .of_number n (List.forall_mem_nil _) (by decide)
  intro text rest skipped stops
  have shown := skipped.first (.of_number n)
  rw [spaced_nil, List.nil_append] at shown
  obtain ⟨c, more, same, digit⟩ := digitChars_cases n
  have begins : (dropBlanks text).head? = some c := by rw [shown, same]; rfl
  have quote : (dropBlanks text).head?.any isQuote = false := by
    rw [begins]
    exact Bool.or_eq_false_iff.mpr ⟨decide_eq_false (isDigit_ne digit (by decide)),
      decide_eq_false (isDigit_ne digit (by decide))⟩
  refine ⟨rest, .refl rest, (string?_absent quote).bind ((atDigit_takes _).bind ?_)⟩
  have here : (dropBlanks text).head?.any isDigit = true := by rw [begins]; exact digit
  rw [here, shown]
  exact (number_takes fits stops.spaces).bind (.pure _ rest)

theorem truth (b : Bool) :
    ReadsAt nested 8 [(if b then "TRUE" else "FALSE").toList] (.literal (.bool b)) := by
  cases b with
  | true =>
      refine of_primary ⟨⟨_, _, rfl, .of_head rfl (by decide) _⟩, fun rest spaces => rfl⟩ ?_
      refine primary_parses (fun rest stops => rfl) (bare_parses (fun rest stops => ⟨rfl, rfl⟩) ?_)
      exact .keyword (by decide) (.pure _) fun rest stops => stops.spaces
  | false =>
      refine of_primary ⟨⟨_, _, rfl, .of_head rfl (by decide) _⟩, fun rest spaces => rfl⟩ ?_
      refine primary_parses (fun rest stops => rfl) (bare_parses (fun rest stops => ⟨rfl, rfl⟩) ?_)
      refine .noKeyword ?_ fun rest stops => rfl
      exact .keyword (by decide) (.pure _) fun rest stops => stops.spaces

theorem null : ReadsAt nested 8 ["NULL".toList] (.literal .null) := by
  refine of_primary ⟨⟨_, _, rfl, .of_head rfl (by decide) _⟩, fun rest spaces => rfl⟩ ?_
  refine primary_parses (fun rest stops => rfl) (bare_parses (fun rest stops => ⟨rfl, rfl⟩) ?_)
  refine .noKeyword ?_ fun rest stops => rfl
  refine .noKeyword ?_ fun rest stops => rfl
  exact .keyword (by decide) (.pure _) fun rest stops => stops.spaces

end ReadsAt

end PropertyGraph.Cypher
