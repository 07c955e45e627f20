import PropertyGraph.Proofs.Cypher.Lexemes
import PropertyGraph.Proofs.Cypher.Recursion

/-!
How a text is read, token by token. Whatever is read was put together of single tokens, and these
and the gaps in front of them are the layout of what was read.
-/

namespace PropertyGraph.Cypher

variable {α β : Type}

/-- The layout of a single token, or of none. -/
def tokenOf (t : List Char) : Layout := if t.isEmpty then [] else [⟨t, true, false⟩]

/-- With these parameters the parser reads this from the text and leaves the rest, and this is how
the text in between is laid out. -/
inductive Scans (parameters : Properties) :
    {α : Type} → Parser α → List Char → α → List Char → Layout → Prop
  | pure {α : Type} (a : α) (text : List Char) : Scans parameters (Pure.pure a) text a text []
  | bind {α β : Type} {p : Parser α} {next : α → Parser β} {text middle rest : List Char} {a : α}
      {b : β} {front back : Layout} (first : Scans parameters p text a middle front)
      (second : Scans parameters (next a) middle b rest back) :
      Scans parameters (p >>= next) text b rest (front ++ back)
  | token {α : Type} {p : Parser α} {gaps : Layout} {t rest : List Char} {a : α} (lexer : Lexer p)
      (between : Gaps gaps (t ++ rest)) (shown : dropBlanks (gaps.chars ++ (t ++ rest)) = t ++ rest)
      (taken : Takes p (gaps.chars ++ (t ++ rest)) a rest) :
      Scans parameters p (gaps.chars ++ (t ++ rest)) a rest (gaps ++ tokenOf t)
  | parameters {α : Type} {next : Properties → Parser α} {text rest : List Char} {a : α}
      {layout : Layout} (found : Scans parameters (next parameters) text a rest layout) :
      Scans parameters (read >>= fun source => next source.parameters) text a rest layout
  | expression {depth : Nat} {text rest : List Char} {e : Expression} {layout : Layout}
      (enough : depth ≤ text.length + 1)
      (found : Scans parameters (expressionWithin depth) text e rest layout) :
      Scans parameters Cypher.expression text e rest layout
  | item {α : Type} {p : Parser α} {gaps layout : Layout} {text rest : List Char} {a : α}
      (between : Gaps gaps text) (shown : dropBlanks (gaps.chars ++ text) = text)
      (found : Scans parameters p text a rest layout) :
      Scans parameters (withText p) (gaps.chars ++ text)
        (a, String.ofList (Text.trim layout.chars)) rest (gaps ++ layout.list)

@[simp] theorem chars_tokenOf (t : List Char) : (tokenOf t).chars = t := by
  unfold tokenOf
  split
  · next none_ => exact (List.isEmpty_iff.mp none_).symm
  · exact List.append_nil t

theorem Scans.split {parameters : Properties} {p : Parser α} {text rest : List Char} {a : α}
    {layout : Layout} (scans : Scans parameters p text a rest layout) :
    text = layout.chars ++ rest := by
  induction scans with
  | pure => rfl
  | bind _ _ ih ihNext => rw [ih, ihNext, Layout.chars_append, List.append_assoc]
  | token => rw [Layout.chars_append, chars_tokenOf, List.append_assoc]
  | parameters _ ih => exact ih
  | expression _ _ ih => exact ih
  | item _ _ _ ih => rw [Layout.chars_append, Layout.chars_list, List.append_assoc, ← ih]

/-- Whatever is read from this text is read token by token. -/
def ScannedAt (p : Parser α) (text : List Char) : Prop :=
  ∀ source a rest, (p.run source).run text = .ok (a, rest) →
    ∃ layout, Scans source.parameters p text a rest layout

def Scanned (p : Parser α) : Prop := ∀ text, ScannedAt p text

namespace ScannedAt

variable {p : Parser α} {text : List Char}

theorem pure (a : α) (text : List Char) : ScannedAt (Pure.pure a) text := by
  rintro source _ _ ⟨⟩
  exact ⟨[], .pure a text⟩

theorem of_fails (fails : Fails p) (text : List Char) : ScannedAt p text := by
  intro source a rest read
  have none_ := fails source text
  rw [read] at none_
  cases none_

theorem bind {next : α → Parser β} (first : ScannedAt p text)
    (others : ∀ source a rest, (p.run source).run text = .ok (a, rest) → ScannedAt (next a) rest) :
    ScannedAt (p >>= next) text := by
  intro source b rest read
  obtain ⟨⟨a, middle⟩, one, two⟩ := bind_eq_ok.mp read
  obtain ⟨front, scans⟩ := first source a middle one
  obtain ⟨back, scansNext⟩ := others source a middle one source b rest two
  exact ⟨front ++ back, scans.bind scansNext⟩

theorem last {f : α → β} (scanned : ScannedAt p text) :
    ScannedAt (p >>= fun a => Pure.pure (f a)) text :=
  scanned.bind fun _ a rest _ => pure (f a) rest

end ScannedAt

namespace Scanned

variable {p q : Parser α}

theorem shortens (scanned : Scanned p) : Shortens p := by
  intro source text a rest read
  obtain ⟨layout, scans⟩ := scanned text source a rest read
  rw [scans.split, List.length_append]
  exact Nat.le_add_left _ _

theorem pure (a : α) : Scanned (Pure.pure a : Parser α) := ScannedAt.pure a

theorem of_fails (fails : Fails p) : Scanned p := ScannedAt.of_fails fails

theorem bind {next : α → Parser β} (first : Scanned p) (others : ∀ a, Scanned (next a)) :
    Scanned (p >>= next) :=
  fun text => (first text).bind fun _ a rest _ => others a rest

theorem last {f : α → β} (scanned : Scanned p) : Scanned (p >>= fun a => Pure.pure (f a)) :=
  scanned.bind fun a => pure (f a)

theorem map {f : α → β} (scanned : Scanned p) : Scanned (f <$> p) := by
  rw [map_eq_pure_bind]
  exact scanned.last

theorem choice {c : Prop} [Decidable c] (yes : Scanned p) (no : Scanned q) :
    Scanned (if c then p else q) := by
  split
  · exact yes
  · exact no

/-- What is read next may be given in another form, which reads the same there. -/
theorem bind_as {next : α → Parser β} (next' : α → Parser β) (first : Scanned p)
    (same : ∀ source text a rest, (p.run source).run text = .ok (a, rest) →
      ((next a).run source).run rest = ((next' a).run source).run rest)
    (others : ∀ a, Scanned (next' a)) : Scanned (p >>= next) := by
  have whole : p >>= next = p >>= next' := by
    funext source text
    exact bind_same_ok fun a rest read => same source text a rest read
  rw [whole]
  exact first.bind others

theorem of_lexer (lexer : Lexer p) : Scanned p := by
  intro text source a rest read
  obtain ⟨gaps, split, between⟩ := splitsGaps text
  obtain ⟨t, shown, _⟩ := lexer.lexes text a rest (.of_steady lexer.steady read)
  rw [shown] at split between
  subst split
  exact ⟨gaps ++ tokenOf t, .token lexer between shown (.of_steady lexer.steady read)⟩

theorem withText (scanned : Scanned p) : Scanned (withText p) := by
  intro text source found rest read
  obtain ⟨gaps, split, between⟩ := splitsGaps text
  have whole : ((Cypher.withText p).run source).run text =
      ((p.run source).run (dropBlanks text)) >>= fun found =>
        .ok ((found.1, String.ofList (Text.trim ((dropBlanks text).take
          ((dropBlanks text).length - found.2.length)))), found.2) := rfl
  rw [whole] at read
  obtain ⟨⟨a, after⟩, inside, last⟩ := bind_eq_ok.mp read
  cases last
  obtain ⟨layout, scans⟩ := scanned _ source a after inside
  have written : (dropBlanks text).take ((dropBlanks text).length - after.length) =
      layout.chars := by
    rw [scans.split, List.length_append, Nat.add_sub_cancel, List.take_left]
  rw [written]
  generalize shown : dropBlanks text = front at *
  subst split
  exact ⟨gaps ++ layout.list, .item between shown scans⟩

/-- Of a text it may be known already that every shorter one is read token by token. -/
theorem of_shorter (step : ∀ text, (∀ rest, rest.length < text.length → ScannedAt p rest) →
    ScannedAt p text) : Scanned p := by
  intro text
  induction long : text.length using Nat.strong_induction_on generalizing text with
  | _ n ih =>
      subst long
      exact step text fun rest shorter => ih _ shorter rest rfl

theorem tryChar {c : Char} (mark : c.isAlpha = false) : Scanned (tryChar c) := of_lexer (.char mark)

theorem expectChar {c : Char} (mark : c.isAlpha = false) : Scanned (expectChar c) :=
  (tryChar mark).bind fun _ =>
    choice (pure ()) (of_fails (.then_ fun _ => .then_ fun _ => .throw _))

theorem tryKeyword {word : String} (capitals : isCapitals word = true) :
    Scanned (tryKeyword word) := of_lexer (.keyword capitals)

theorem expectKeyword {word : String} (capitals : isCapitals word = true) :
    Scanned (expectKeyword word) :=
  (tryKeyword capitals).bind fun _ => choice (pure ()) (of_fails (.then_ fun _ => .throw _))

theorem tryKeywordWith {word : String} (capitals : isCapitals word = true) :
    Scanned (tryKeywordWith word) :=
  (tryKeyword capitals).bind fun _ =>
    choice ((expectKeyword (by decide)).bind fun _ => pure true) (pure false)

theorem keyword {word : String} (capitals : isCapitals word = true) (scanned : Scanned p) :
    Scanned (keyword? word p) :=
  (tryKeyword capitals).bind fun _ => choice scanned.last (pure none)

theorem separated (scanned : Scanned p) : Scanned (separated p) := by
  refine of_shorter fun text shorter => ?_
  rw [separated_eq scanned.shortens]
  refine (scanned text).bind fun _ first rest read => ?_
  have short := scanned.shortens _ _ _ _ read
  refine (tryChar (by decide) rest).bind fun _ more after comma => ?_
  have behind := tryChar_tests ',' _ _ _ _ comma
  cases more with
  | false => exact .pure _ after
  | true => exact (shorter after (Nat.lt_of_lt_of_le behind short)).last

theorem repeated {p : Parser (Option α)} (scanned : Scanned p) (consumes : Consumes p) :
    Scanned (repeated p) := by
  refine of_shorter fun text shorter => ?_
  rw [repeated_eq consumes]
  refine (scanned text).bind fun _ found rest read => ?_
  cases found with
  | none => exact .pure _ rest
  | some first => exact (shorter rest (consumes _ _ _ _ read)).last

theorem firstOf {operators : List (Parser Bool × BinaryOperator)}
    (scanned : ∀ o ∈ operators, Scanned o.1) : Scanned (firstOf operators) := by
  induction operators with
  | nil => exact pure none
  | cons o others ih =>
      obtain ⟨first, later⟩ := List.forall_mem_cons.mp scanned
      exact first.bind fun _ => choice (pure _) (ih later)

/-- The operators of one level are read token by token, and take what they are. -/
def Operators (operators : List (Parser Bool × BinaryOperator)) : Prop :=
  ∀ o ∈ operators, Scanned o.1 ∧ Tests o.1

theorem chain {operators : List (Parser Bool × BinaryOperator)} {operand : Parser Expression}
    (between : Operators operators) (scanned : Scanned operand) :
    Scanned (chain operators operand) := by
  have consumes := firstOf_consumes fun o member => (between o member).2
  have behind (left : Expression) : Scanned (chainBehind operators operand left) := by
    intro text
    -- The operand on the left grows with every operator, so the induction is over all of them.
    induction long : text.length using Nat.strong_induction_on generalizing text left with
    | _ n ih =>
        subst long
        rw [chainBehind_eq scanned.shortens consumes]
        refine (firstOf (fun o member => (between o member).1) text).bind
          fun _ found rest read => ?_
        cases found with
        | none => exact .pure _ rest
        | some op =>
            refine (scanned rest).bind fun _ right after readRight => ?_
            have short := scanned.shortens _ _ _ _ readRight
            exact ih _ (Nat.lt_of_le_of_lt short (consumes _ _ _ _ read)) _ after rfl
  rw [chain_eq]
  exact scanned.bind behind

theorem operatorsAt_read (k : Nat) : Operators (operatorsAt k) := by
  have char {c : Char} (mark : c.isAlpha = false) :
      Scanned (Cypher.tryChar c) ∧ Tests (Cypher.tryChar c) := ⟨tryChar mark, tryChar_tests c⟩
  have mark {c : Char} {more : List Char} (symbols : (c :: more).all isSymbol = true) :
      Scanned (tryMark (c :: more)) ∧ Tests (tryMark (c :: more)) :=
    ⟨of_lexer (.mark symbols), tryMark_tests (List.cons_ne_nil _ _)⟩
  have word {word : String} (capitals : isCapitals word = true) :
      Scanned (Cypher.tryKeyword word) ∧ Tests (Cypher.tryKeyword word) :=
    ⟨tryKeyword capitals, tryKeyword_tests (codes_of_isCapitals capitals).1⟩
  have with_ {word : String} (capitals : isCapitals word = true) :
      Scanned (Cypher.tryKeywordWith word) ∧ Tests (Cypher.tryKeywordWith word) :=
    ⟨tryKeywordWith capitals, tryKeywordWith_tests (codes_of_isCapitals capitals).1⟩
  match k with
  | 0 | 1 | 2 => exact List.forall_mem_singleton.mpr (word (by decide))
  | 3 => exact List.forall_mem_nil _
  | 4 =>
      simp only [Operators, operatorsAt, comparisons, List.forall_mem_cons]
      exact ⟨mark (by decide), mark (by decide), mark (by decide), mark (by decide),
        char (by decide), char (by decide), char (by decide), word (by decide), word (by decide),
        with_ (by decide), with_ (by decide), List.forall_mem_nil _⟩
  | 5 =>
      simp only [Operators, operatorsAt, List.forall_mem_cons]
      exact ⟨char (by decide), char (by decide), List.forall_mem_nil _⟩
  | 6 =>
      simp only [Operators, operatorsAt, List.forall_mem_cons]
      exact ⟨char (by decide), char (by decide), char (by decide), List.forall_mem_nil _⟩
  | _ + 7 => exact List.forall_mem_nil _

theorem mapKey : Scanned mapKey := by
  refine (of_lexer .string).bind fun found => ?_
  split
  · exact pure _
  · exact of_lexer .name

/-- What a parameter of this name stands for. -/
def valued (key : String) (parameters : Properties) : Parser Expression :=
  match Dictionary.get? key parameters with
  | some value => return .literal value
  | none => throw (.missingParameter key)

theorem parameter : Scanned parameter := by
  refine (of_lexer .name).bind fun key text source a rest read => ?_
  have scanned : Scanned (valued key source.parameters) := by
    unfold valued
    split
    · exact pure _
    · exact of_fails (.throw _)
  obtain ⟨layout, scans⟩ := scanned text source a rest read
  exact ⟨layout, @Scans.parameters _ _ (valued key) _ _ _ _ scans⟩

/-! Digits and names are looked for where blanks were skipped, so they may skip them again. -/

theorem shown_of_none {source : Source} {text rest : List Char}
    (read : (string?.run source).run text = .ok (none, rest)) : dropBlanks rest = rest := by
  rw [(string?_none read).1]
  exact dropBlanks_dropBlanks text

theorem shown_of_false {word : String} {source : Source} {text rest : List Char}
    (read : ((Cypher.tryKeyword word).run source).run text = .ok (false, rest)) :
    dropBlanks rest = rest := by
  rw [tryKeyword_eq] at read
  split at read <;> cases read
  exact dropBlanks_dropBlanks text

theorem skipBlanks_shown (p : Parser α) {rest : List Char} (shown : dropBlanks rest = rest)
    (source : Source) :
    ((skipBlanks >>= fun _ => p).run source).run rest = (p.run source).run rest := by
  rw [Parser.bind_run, Takes.skipBlanks rest source, shown]
  rfl

theorem number?_or (found : Value → Parser β) (others : Parser β) :
    (do
      match ← number? with
      | some v => found v
      | none => others) = (do
      if ← look isDigit then found (← number) else others) := by
  rw [number?, bind_assoc]
  congr 1
  funext here
  split
  · rw [bind_assoc]
    rfl
  · rfl

theorem number_or {found : Value → Parser β} {others : Parser β}
    (scanned : ∀ v, Scanned (found v)) (scannedOthers : Scanned others) : Scanned (do
      skipBlanks
      if ← atDigit then found (← number) else others) := by
  change Scanned (do
    if ← look isDigit then found (← number) else others)
  rw [← number?_or]
  refine (of_lexer .number).bind fun v => ?_
  cases v with
  | none => exact scannedOthers
  | some v => exact scanned v

section Nested

variable {nested : Parser Expression} (inside : Scanned nested)

include inside

theorem itemsUntil {close : Char} (mark : close.isAlpha = false) :
    Scanned (itemsUntil close nested) :=
  (tryChar mark).bind fun _ => choice (pure [])
    (inside.separated.bind fun _ => (expectChar mark).last)

theorem mapEntries : Scanned (mapEntries nested) := by
  have entry : Scanned (mapEntry nested) :=
    mapKey.bind fun _ => (expectChar (by decide)).bind fun _ => inside.last
  exact (tryChar (by decide)).bind fun _ => choice (pure [])
    (entry.separated.bind fun _ => (expectChar (by decide)).last)

theorem call (name : String) : Scanned (call nested name) := by
  have arguments (name : String) : Scanned (do
      let distinct ← Cypher.tryKeyword "DISTINCT"
      return Expression.call name distinct (← Cypher.itemsUntil ')' nested)) :=
    (tryKeyword (by decide)).bind fun _ => (inside.itemsUntil (by decide)).last
  unfold Cypher.call
  dsimp only
  exact choice ((tryChar (by decide)).bind fun star =>
    choice ((expectChar (by decide)).bind fun _ => pure _) (arguments _)) (arguments _)

theorem named : Scanned (skipBlanks >>= fun _ => named nested) := by
  have whole : (skipBlanks >>= fun _ => Cypher.named nested) = (look startsName >>= fun here => do
      unless here do
        throw (.expectedExpression (← position) (← snippet))
      let word ← Cypher.name
      if isReserved word then throw (.unexpectedKeyword word)
      if ← Cypher.tryChar '(' then return ← Cypher.call nested word
      if ← Cypher.tryChar '.' then return .property word (← Cypher.name)
      return .reference word) := rfl
  rw [whole]
  refine (of_lexer (.look startsName)).bind fun here => ?_
  split
  · refine (of_lexer .name).bind fun word => ?_
    split
    · exact of_fails (.throw _)
    · exact (tryChar (by decide)).bind fun _ => choice (inside.call word)
        ((tryChar (by decide)).bind fun _ => choice (of_lexer .name).last (pure _))
  · exact of_fails (.then_ fun _ => .then_ fun _ => .throw _)

/-- What is read where no bracket opens, with the blanks skipped once more. -/
def unbracketed (nested : Parser Expression) (found : Option String) : Parser Expression :=
  match found with
  | some s => return .literal (.string s)
  | none => do
      skipBlanks
      if ← atDigit then return .literal (← number)
      if ← Cypher.tryKeyword "TRUE" then return .literal (.bool true)
      if ← Cypher.tryKeyword "FALSE" then return .literal (.bool false)
      if ← Cypher.tryKeyword "NULL" then return .literal .null
      Cypher.named nested

theorem primary : Scanned (primary nested) := by
  refine (tryChar (by decide)).bind fun _ => choice (inside.bind fun _ =>
    (expectChar (by decide)).bind fun _ => pure _) ?_
  refine (tryChar (by decide)).bind fun _ => choice (inside.itemsUntil (by decide)).last ?_
  refine (tryChar (by decide)).bind fun _ => choice inside.mapEntries.last ?_
  refine (tryChar (by decide)).bind fun _ => choice parameter ?_
  -- Digits and names are looked for without skipping blanks, which were skipped before them.
  refine bind_as (unbracketed nested) (of_lexer .string)
    (fun source text found rest read => ?_) fun found => ?_
  · cases found with
    | some s => rfl
    | none => exact (skipBlanks_shown _ (shown_of_none read) source).symm
  · cases found with
    | some s => exact pure _
    | none =>
        refine number_or (fun v => pure (Expression.literal v)) ?_
        refine (tryKeyword (by decide)).bind fun _ => choice (pure _) ?_
        refine (tryKeyword (by decide)).bind fun _ => choice (pure _) ?_
        refine bind_as (fun null => if null then return .literal .null else do
          skipBlanks
          Cypher.named nested) (tryKeyword (by decide)) (fun source text null rest read => ?_)
          fun null => choice (pure _) inside.named
        cases null with
        | true => rfl
        | false => exact (skipBlanks_shown _ (shown_of_false read) source).symm

theorem unary : Scanned (unary nested) := by
  refine of_shorter fun text shorter => ?_
  rw [unary_eq]
  refine (tryChar (by decide) text).bind fun _ minus rest read => ?_
  have short := tryChar_tests '-' _ _ _ _ read
  cases minus with
  | true => exact (shorter rest short).last
  | false =>
      refine (tryChar (by decide) rest).bind fun _ plus after readPlus => ?_
      have behind := tryChar_tests '+' _ _ _ _ readPlus
      cases plus with
      | true => exact shorter after (Nat.lt_of_lt_of_le behind short)
      | false => exact inside.primary after

theorem sum : Scanned (sum nested) :=
  chain (operatorsAt_read 5) (chain (operatorsAt_read 6) inside.unary)

theorem comparison : Scanned (comparison nested) := by
  refine inside.sum.bind fun left => (tryKeyword (by decide)).bind fun is => choice ?_ ?_
  · exact (tryKeyword (by decide)).bind fun negative =>
      (expectKeyword (by decide)).bind fun _ => pure _
  · refine (firstOf fun o member => (operatorsAt_read 4 o member).1).bind fun found => ?_
    cases found with
    | none => exact pure left
    | some op => exact inside.sum.last

theorem condition : Scanned (condition nested) := by
  refine of_shorter fun text shorter => ?_
  rw [condition_eq]
  refine (tryKeyword (by decide) text).bind fun _ not rest read => ?_
  have behind := tryKeyword_tests (by decide) _ _ _ _ read
  cases not with
  | true => exact (shorter rest behind).last
  | false => exact inside.comparison rest

theorem connected : Scanned (connected nested) :=
  chain (operatorsAt_read 0) (chain (operatorsAt_read 1) (chain (operatorsAt_read 2)
    inside.condition))

end Nested

theorem expressionWithin (depth : Nat) : Scanned (expressionWithin depth) := by
  induction depth with
  | zero => exact of_fails (.then_ fun _ => .then_ fun _ => .throw _)
  | succ depth ih =>
      rw [Cypher.expressionWithin]
      exact ih.connected

theorem expression : Scanned expression := by
  intro text source e rest read
  rw [Cypher.expression, Parser.get_run] at read
  obtain ⟨layout, scans⟩ := expressionWithin (text.length + 1) text source e rest read
  exact ⟨layout, .expression (Nat.le_refl _) scans⟩

/-- A name or none, and a length or none: each is looked for behind blanks. -/
theorem optionalName : Scanned optionalName := by
  change Scanned (do
    if ← look startsName then return some (← Cypher.name) else return none)
  exact (of_lexer (.look startsName)).bind fun _ => choice (of_lexer .name).last (pure none)

theorem optionalLength : Scanned optionalLength := by
  change Scanned (do
    if ← look isDigit then return some (← length) else return none)
  exact (of_lexer (.look isDigit)).bind fun _ => choice (of_lexer .length).last (pure none)

theorem name : Scanned name := of_lexer .name

theorem labels : Scanned (Cypher.repeated label?) :=
  repeated ((tryChar (by decide)).bind fun _ => choice name.last (pure none))
    (.of_test (tryChar_tests ':') name.last.shortens)

theorem properties : Scanned properties :=
  (tryChar (by decide)).bind fun _ => choice expression.mapEntries (pure [])

theorem nodePattern : Scanned nodePattern :=
  (expectChar (by decide)).bind fun _ => optionalName.bind fun _ => labels.bind fun _ =>
    properties.bind fun _ => (expectChar (by decide)).last

theorem length_nodePattern {source : Source} {text rest : List Char} {node : NodePattern}
    (read : (Cypher.nodePattern.run source).run text = .ok (node, rest)) :
    rest.length < text.length := by
  obtain ⟨⟨_, middle⟩, opened, inside⟩ := bind_eq_ok.mp read
  obtain ⟨⟨found, after⟩, tried, last⟩ := bind_eq_ok.mp opened
  have shorter := tryChar_tests '(' _ _ _ _ tried
  cases found with
  | false => cases last
  | true =>
      cases last
      have others : Scanned (do
          let name ← Cypher.optionalName
          let labels ← Cypher.repeated label?
          let properties ← Cypher.properties
          Cypher.expectChar ')'
          return NodePattern.mk name labels properties) :=
        optionalName.bind fun _ => labels.bind fun _ => properties.bind fun _ =>
          (expectChar (by decide)).last
      exact Nat.lt_of_le_of_lt (others.shortens _ _ _ _ inside) shorter

theorem pathLength : Scanned pathLength := by
  refine optionalLength.bind fun least => (of_lexer (.mark (by decide))).bind fun _ =>
    choice (optionalLength.bind fun greatest => ?_) ?_
  · exact choice (of_fails (.throw _)) (pure _)
  · cases least with
    | none => exact pure _
    | some n => exact pure _

theorem types : Scanned types := by
  have another : Scanned (do
      let _ ← Cypher.tryChar ':'
      return some (← Cypher.name)) := (tryChar (by decide)).bind fun _ => name.last
  exact (tryChar (by decide)).bind fun _ => choice (name.bind fun _ =>
    (repeated ((tryChar (by decide)).bind fun _ => choice another (pure none))
      (.of_test (tryChar_tests '|') another.shortens)).last) (pure [])

theorem relationshipBody : Scanned relationshipBody := by
  have complete (name : Option String) (types : List String) (length : Option PathLength) :
      Scanned (do
        let properties ← Cypher.properties
        Cypher.expectChar ']'
        return fun direction => (⟨name, types, properties, direction, length⟩ :
          RelationshipPattern)) := properties.bind fun _ => (expectChar (by decide)).last
  exact optionalName.bind fun name => types.bind fun types => (tryChar (by decide)).bind fun _ =>
    choice (pathLength.map.bind fun length => complete name types length)
      ((pure none).bind fun _ => complete name types _)

theorem directionOf (left right : Bool) : Scanned (directionOf left right) := by
  cases left <;> cases right <;> first | exact pure _ | exact of_fails (.throw _)

theorem relationshipPattern : Scanned relationshipPattern := by
  have ended (body : Undirected) (left : Bool) : Scanned (do
      let right ← tryMark ['-', '>']
      unless right do Cypher.expectChar '-'
      return body (← Cypher.directionOf left right)) :=
    (of_lexer (.mark (by decide))).bind fun right =>
      choice (directionOf left _).last
        ((expectChar (by decide)).bind fun _ => (directionOf left _).last)
  have opened (left : Bool) : Scanned (do
      let body ← if ← Cypher.tryChar '[' then Cypher.relationshipBody
        else Pure.pure fun direction => ⟨none, [], [], direction, none⟩
      let right ← tryMark ['-', '>']
      unless right do Cypher.expectChar '-'
      return body (← Cypher.directionOf left right)) :=
    (tryChar (by decide)).bind fun _ => choice (relationshipBody.bind fun body => ended body left)
      ((pure _).bind fun body => ended body left)
  exact (of_lexer (.mark (by decide))).bind fun left =>
    choice (opened _) ((expectChar (by decide)).bind fun _ => opened _)

theorem chainLinks : Scanned (Cypher.repeated chainLink?) := by
  have whole : chainLink? = (do
      if ← look fun c => c = '-' || c = '<' then
        let relationship ← Cypher.relationshipPattern
        return some (relationship, ← Cypher.nodePattern)
      return none) := rfl
  have pair : Scanned (do
      let relationship ← Cypher.relationshipPattern
      return some (relationship, ← Cypher.nodePattern)) :=
    relationshipPattern.bind fun _ => nodePattern.last
  rw [whole]
  refine repeated ((of_lexer (.look _)).bind fun _ => choice pair (pure none)) ?_
  intro source text link rest read
  rw [Parser.bind_run] at read
  obtain ⟨⟨here, middle⟩, looked, others⟩ := bind_eq_ok.mp read
  have short := (of_lexer (.look _)).shortens _ _ _ _ looked
  cases here with
  | false => cases others
  | true =>
      obtain ⟨⟨relationship, between⟩, first, second⟩ := bind_eq_ok.mp others
      obtain ⟨⟨node, after⟩, node_, last⟩ := bind_eq_ok.mp second
      cases last
      have shorter := relationshipPattern.shortens _ _ _ _ first
      exact Nat.lt_of_lt_of_le (length_nodePattern node_) (Nat.le_trans shorter short)

theorem patterns : Scanned patterns :=
  separated (nodePattern.bind fun _ => chainLinks.last)

theorem matchClauses : Scanned (Cypher.repeated matchClause?) :=
  repeated (keyword (by decide) (patterns.bind fun _ => (keyword (by decide) expression).last))
    matchClause?_consumes

theorem setItem : Scanned setItem :=
  name.bind fun _ => (expectChar (by decide)).bind fun _ => name.bind fun _ =>
    (expectChar (by decide)).bind fun _ => expression.last

theorem deleteClause? : Scanned deleteClause? := by
  refine (tryKeyword (by decide)).bind fun detach => ?_
  cases detach with
  | true => exact (expectKeyword (by decide)).bind fun _ => (separated name).last
  | false => exact keyword (by decide) (separated name).last

theorem returnItem : Scanned returnItem :=
  (withText expression).bind fun _ => (keyword (by decide) name).last

theorem sortsDescending : Scanned sortsDescending :=
  (tryKeyword (by decide)).bind fun _ => choice (pure true)
    ((tryKeyword (by decide)).bind fun _ => choice (pure true)
    ((tryKeyword (by decide)).bind fun _ => choice (pure false) (tryKeyword (by decide)).last))

theorem sortItem : Scanned sortItem := (withText expression).bind fun _ => sortsDescending.last

theorem rowCount (clause : String) : Scanned (rowCount clause) := by
  refine expression.primary.bind fun count => ?_
  split
  · exact choice (pure _) (of_fails (.throw _))
  · exact of_fails (.throw _)

theorem arranged (distinct : Bool) (items : List ReturnItem) : Scanned (do
    let order ← Cypher.keyword? "ORDER" do
      Cypher.expectKeyword "BY"
      Cypher.separated Cypher.sortItem
    let skip ← Cypher.keyword? "SKIP" (Cypher.rowCount "SKIP")
    let limit ← Cypher.keyword? "LIMIT" (Cypher.rowCount "LIMIT")
    return ReturnClause.mk distinct items (order.getD []) skip limit) := by
  have order : Scanned (do
      Cypher.expectKeyword "BY"
      Cypher.separated Cypher.sortItem) :=
    (expectKeyword (by decide)).bind fun _ => sortItem.separated
  exact (keyword (by decide) order).bind fun _ => (keyword (by decide) (rowCount _)).bind fun _ =>
    (keyword (by decide) (rowCount _)).last

theorem returnClause : Scanned returnClause :=
  (tryKeyword (by decide)).bind fun distinct => returnItem.separated.bind (arranged distinct)

theorem query : Scanned query :=
  matchClauses.bind fun _ => (keyword (by decide) patterns).bind fun _ =>
    (keyword (by decide) setItem.separated).bind fun _ => deleteClause?.bind fun _ =>
    (keyword (by decide) returnClause).bind fun _ =>
    choice (of_fails (.then_ fun _ => .throw _)) (pure _)

theorem ended (a : α) {faulty : Parser α} (fails : Fails faulty) : Scanned (do
    skipBlanks
    if (← get).isEmpty then return a else faulty) := by
  have whole : (do
      skipBlanks
      if (← get).isEmpty then return a else faulty) = (do
      if ← look fun _ => true then faulty else return a) := by
    funext source text
    have ends : (((do
        skipBlanks
        if (← get).isEmpty then return a else faulty : Parser α).run source).run text) =
        ((if (dropBlanks text).isEmpty then Pure.pure a else faulty : Parser α).run source).run
          (dropBlanks text) := rfl
    have looks : (((do
        if ← look fun _ => true then faulty else return a : Parser α).run source).run text) =
        ((if (dropBlanks text).head?.any fun _ => true then faulty else Pure.pure a :
          Parser α).run source).run (dropBlanks text) := rfl
    refine ends.trans (Eq.trans ?_ looks.symm)
    cases dropBlanks text <;> rfl
  rw [whole]
  exact (of_lexer (.look _)).bind fun _ => choice (of_fails fails) (pure a)

theorem closed (explain : Bool) (q : Query) : Scanned (do
    let _ ← Cypher.tryChar ';'
    skipBlanks
    unless (← get).isEmpty do throw (ParseFault.unexpectedInput (← position) (← snippet))
    return Statement.mk explain q) :=
  (tryChar (by decide)).bind fun _ =>
    ended (Statement.mk explain q) (.then_ fun _ => .then_ fun _ => .throw _)

/-- What is read behind EXPLAIN, or where it is missing. -/
theorem explained (explain : Bool) : Scanned (do
    let query ← Cypher.query
    let _ ← Cypher.tryChar ';'
    skipBlanks
    unless (← get).isEmpty do throw (ParseFault.unexpectedInput (← position) (← snippet))
    return Statement.mk explain query) := query.bind (closed explain)

theorem statement : Scanned statement := (tryKeyword (by decide)).bind explained

end Scanned

end PropertyGraph.Cypher
