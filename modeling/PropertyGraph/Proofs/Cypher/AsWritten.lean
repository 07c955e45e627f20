import PropertyGraph.Proofs.Cypher.RoundTrip

/-!
Texts as they are written, with or without spaces between their tokens. One operand alone is read
at every level alike, where nothing goes on with it, and the text of an item is what was written.
-/

namespace PropertyGraph.Cypher

variable {α β : Type} {source : Source} {nested : Parser Expression} {e : Expression}
  {text middle rest : List Char}

/-- From this source, the parser reads this from the text, and leaves the rest. Of both the blanks
in front may have been skipped. -/
def Spots (source : Source) (p : Parser α) (text : List Char) (a : α) (rest : List Char) : Prop :=
  ∀ shown, Skipped text shown →
    ∃ after, Skipped rest after ∧ (p.run source).run shown = .ok (a, after)

namespace Spots

variable {p : Parser α} {next : α → Parser β} {a : α} {b : β} {c : Char} {word : String}
  {words : List String} {marks : List Char}

theorem of_parses {follows : List Char → Prop} {tokens : List Token}
    (parses : Parses follows p tokens a) (ends : follows rest) :
    Spots source p (spaced tokens ++ rest) a rest := by
  intro shown skipped
  obtain ⟨after, behind, taken⟩ := parses shown rest skipped ends
  exact ⟨after, behind, taken source⟩

theorem of_run (stays : dropBlanks text = text) (run : (p.run source).run text = .ok (a, rest)) :
    Spots source p text a rest := by
  intro shown skipped
  obtain rfl : shown = text := by
    rcases skipped with rfl | same
    · rfl
    · rw [same, stays]
  exact ⟨rest, .refl rest, run⟩

theorem behind (found : Spots source p text a rest) : Spots source p (dropBlanks text) a rest := by
  intro shown skipped
  refine found shown (.inr ?_)
  rcases skipped with rfl | same
  · rfl
  · rw [same, dropBlanks_dropBlanks]

theorem pure (a : α) (text : List Char) : Spots source (Pure.pure a) text a text :=
  fun shown skipped => ⟨shown, skipped, rfl⟩

theorem bind (first : Spots source p text a middle) (second : Spots source (next a) middle b rest) :
    Spots source (p >>= next) text b rest := by
  intro shown skipped
  obtain ⟨between, skippedToo, run⟩ := first shown skipped
  obtain ⟨after, behind, runNext⟩ := second between skippedToo
  refine ⟨after, behind, ?_⟩
  rw [Parser.bind_run, run]
  exact runNext

theorem last {f : α → β} (first : Spots source p text a rest)
    (same : next = fun a => Pure.pure (f a)) : Spots source (p >>= next) text (f a) rest := by
  subst same
  exact first.bind (.pure (f a) rest)

theorem look {follows : List Char → Prop} (first : Parses follows p [] a) (ends : follows text)
    (second : Spots source (next a) text b rest) : Spots source (p >>= next) text b rest :=
  (of_parses first ends : Spots source p text a text).bind second

theorem of_get {next : List Char → Parser β}
    (found : ∀ shown, Spots source (next shown) text b rest) :
    Spots source (get >>= next) text b rest := fun shown skipped => found shown shown skipped

theorem of_read {next : Source → Parser β} (found : Spots source (next source) text b rest) :
    Spots source (read >>= next) text b rest := found

section Marks

variable {next : Bool → Parser β} {after : Unit → Parser β}

theorem mark (found : dropBlanks text = c :: middle)
    (second : Spots source (next true) middle b rest) :
    Spots source (tryChar c >>= next) text b rest := by
  have one : Spots source (tryChar c) text true middle := fun shown skipped =>
    ⟨middle, .refl middle, tryChar_found (by rw [skipped.dropBlanks_eq, found]) source⟩
  exact one.bind second

theorem expect (found : dropBlanks text = c :: middle)
    (second : Spots source (after ()) middle b rest) :
    Spots source (expectChar c >>= after) text b rest := by
  have one : Spots source (expectChar c) text () middle := fun shown skipped =>
    ⟨middle, .refl middle, expectChar_found (by rw [skipped.dropBlanks_eq, found]) source⟩
  exact one.bind second

theorem keyword (found : afterKeyword? word.toList (dropBlanks text) = some middle)
    (second : Spots source (next true) middle b rest) :
    Spots source (tryKeyword word >>= next) text b rest := by
  have one : Spots source (tryKeyword word) text true middle := fun shown skipped =>
    ⟨middle, .refl middle, tryKeyword_found (by rw [skipped.dropBlanks_eq, found]) source⟩
  exact one.bind second

theorem noMark (absent : Lacks words marks text) (member : c ∈ marks)
    (second : Spots source (next false) text b rest) :
    Spots source (tryChar c >>= next) text b rest := look (tryChar_lacking member) absent second

theorem noKeyword (absent : Lacks words marks text) (member : word ∈ words)
    (second : Spots source (next false) text b rest) :
    Spots source (tryKeyword word >>= next) text b rest :=
  look (tryKeyword_lacking member) absent second

theorem keyword? {item : Parser α}
    (found : afterKeyword? word.toList (dropBlanks text) = some middle)
    (inside : Spots source item middle a rest) :
    Spots source (keyword? word item) text (some a) rest := keyword found (inside.last rfl)

theorem noKeyword? {item : Parser α} (absent : Lacks [word] [] text) :
    Spots source (Cypher.keyword? word item) text none text :=
  noKeyword absent (List.mem_singleton_self word) (.pure none text)

end Marks

end Spots

/-- Nothing goes on with an expression that ends here. -/
def Concludes (rest : List Char) : Prop :=
  Lacks (fromLevel 0 continuingWords) (fromLevel 0 continuingMarks) rest

namespace Spots

theorem chain {k : Nat} (grouped : isGrouped k = true)
    (found : Spots source (parserAt nested (k + 1)) text e rest) (ends : Concludes rest) :
    Spots source (parserAt nested k) text e rest := by
  have lacking : Lacks (fromLevel k continuingWords) (fromLevel k continuingMarks) rest :=
    ends.imp (fromLevel_subset (Nat.zero_le k) _) (fromLevel_subset (Nat.zero_le k) _)
  rw [parserAt_grouped nested grouped]
  refine found.bind fun shown skipped => ?_
  have none_ : Spots source (chainFrom (firstOf (operatorsAt k)) (parserAt nested (k + 1)) e
      (shown.length + 1)) rest e rest := by
    rw [chainFrom_succ]
    exact look (operators_lacking k) lacking (.pure e rest)
  exact none_ shown skipped

theorem comparison (found : Spots source (sum nested) text e rest) (ends : Concludes rest) :
    Spots source (comparison nested) text e rest := by
  refine found.bind (noKeyword ends (by decide) ?_)
  exact look (operators_lacking 4)
    (ends.imp (fromLevel_subset (Nat.zero_le 4) _) (fromLevel_subset (Nat.zero_le 4) _))
    (.pure e rest)

theorem connected (found : Spots source (unary nested) text e rest)
    (absent : Lacks ["NOT"] [] text) (ends : Concludes rest) :
    Spots source (connected nested) text e rest := by
  have products : Spots source (parserAt nested 6) text e rest := .chain rfl found ends
  have sums : Spots source (parserAt nested 5) text e rest := .chain rfl products ends
  have compared : Spots source (Cypher.comparison nested) text e rest := .comparison sums ends
  have conditions : Spots source (parserAt nested 3) text e rest := by
    have condition_ : Spots source (condition nested) text e rest := by
      rw [condition_eq]
      exact noKeyword absent (List.mem_singleton_self _) compared
    exact condition_
  have conjoined : Spots source (parserAt nested 2) text e rest := .chain rfl conditions ends
  have parted : Spots source (parserAt nested 1) text e rest := .chain rfl conjoined ends
  exact .chain (k := 0) rfl parted ends

theorem expression (found : ∀ nested, Spots source (unary nested) text e rest)
    (absent : Lacks ["NOT"] [] text) (ends : Concludes rest) :
    Spots source expression text e rest := by
  have within (depth : Nat) : Spots source (expressionWithin (depth + 1)) text e rest := by
    rw [expressionWithin]
    exact (found (expressionWithin depth)).connected absent ends
  exact .of_get fun shown => within shown.length

theorem unsigned (absent : Lacks [] ['-', '+'] text)
    (found : Spots source (primary nested) text e rest) :
    Spots source (unary nested) text e rest := by
  rw [unary_eq]
  exact noMark absent (by decide) (noMark absent (by decide) found)

theorem negated (found : Spots source (unary nested) text e rest) :
    Spots source (unary nested) ('-' :: text) (negated e) rest := by
  rw [unary_eq]
  exact mark (dropBlanks_visible rfl (by decide) text) (found.last rfl)

theorem bare (absent : Lacks [] ['(', '[', '{', '$'] text)
    (found : Spots source (bare nested) text e rest) :
    Spots source (primary nested) text e rest :=
  noMark absent (by decide) (noMark absent (by decide) (noMark absent (by decide)
    (noMark absent (by decide) found)))

end Spots

/-- Between two backticks any text is a name. -/
def escapedName (name : String) : List Char := '`' :: (name.toList ++ ['`'])

/-- How names are spelled: as they are, or between backticks. -/
inductive Spells : List Char → String → Prop
  | bare (name : String) (plain : isBareName name = true) : Spells name.toList name
  | escaped (name : String) (plain : '`' ∉ name.toList) : Spells (escapedName name) name

namespace Spells

variable {token : List Char} {spelled : String}

theorem visible (spells : Spells token spelled) : Visible token := by
  cases spells with
  | bare _ plain => exact .of_name plain
  | escaped => exact .of_head rfl (by decide) _

theorem finishes (spells : Spells token spelled) : Finishes [token] := by
  cases spells with
  | bare _ plain => exact .of_name plain
  | escaped => exact ⟨[], '`' :: spelled.toList, '`', rfl, rfl⟩

end Spells

theorem Finishes.prefixed {token : Token} (finishes : Finishes [token]) (front : List Char) :
    Finishes [front ++ token] := by
  obtain ⟨others, more, c, same, shown⟩ := finishes
  obtain ⟨rfl, rfl⟩ : others = [] ∧ token = more ++ [c] := by
    cases others with
    | nil => exact ⟨rfl, List.head_eq_of_cons_eq same⟩
    | cons first rest =>
        have short := congrArg List.length same
        simp at short
  exact ⟨[], front ++ more, c, by rw [List.append_assoc, List.nil_append], shown⟩

theorem name_run (source : Source) (text : List Char) :
    (name.run source).run text =
      ((match dropBlanks text with
        | '`' :: rest =>
            match rest.dropWhile (· != '`') with
            | [] => throw .unclosedName
            | _ :: after => do
                set after
                return String.ofList (rest.takeWhile (· != '`'))
        | c :: rest =>
            if Text.isLetter c || c = '_' then do
              set (rest.dropWhile isWordPart)
              return String.ofList (c :: rest.takeWhile isWordPart)
            else do throw (.expectedName (← position))
        | [] => do throw (.expectedName (← position)) : Parser String).run source).run
          (dropBlanks text) := rfl

theorem name_escaped {name : String} (plain : '`' ∉ name.toList)
    (found : dropBlanks text = escapedName name ++ rest) : Takes Cypher.name text name rest := by
  have inside : ∀ c ∈ name.toList, (c != '`') = true := fun c member =>
    bne_iff_ne.mpr fun same => plain (same ▸ member)
  have left : (name.toList ++ '`' :: rest).dropWhile (· != '`') = '`' :: rest := by
    rw [List.dropWhile_append_of_pos inside]
    rfl
  have taken : (name.toList ++ '`' :: rest).takeWhile (· != '`') = name.toList := by
    rw [List.takeWhile_append_of_pos inside]
    exact List.append_nil _
  rw [escapedName, List.cons_append, List.append_assoc, List.singleton_append] at found
  intro source
  rw [name_run, found]
  split
  · next more same =>
      obtain rfl := (List.cons.inj same).2
      rw [left, taken, String.ofList_toList]
      rfl
  · next other same => exact absurd (List.cons.inj same).1.symm other
  · next same => cases same

theorem takeWhile_append_ends {accept : Char → Bool} {t rest : List Char}
    (accepted : ∀ c ∈ t, accept c = true)
    (ends : rest.head?.any accept = false) :
    (t ++ rest).takeWhile accept = t ∧ (t ++ rest).dropWhile accept = rest := by
  rw [List.takeWhile_append_of_pos accepted, List.dropWhile_append_of_pos accepted]
  cases rest with
  | nil => exact ⟨List.append_nil t, rfl⟩
  | cons d rest =>
      have other : ¬accept d = true := Bool.eq_false_iff.mp ends
      rw [List.takeWhile_cons_of_neg other, List.dropWhile_cons_of_neg other]
      exact ⟨List.append_nil t, rfl⟩

/-- Where no more of a word follows, a name is read from any spelling. -/
theorem Spells.takes {token : List Char} {name : String} (spells : Spells token name)
    (ends : rest.head?.any isWordPart = false) (found : dropBlanks text = token ++ rest) :
    Takes Cypher.name text name rest := by
  cases spells with
  | escaped _ plain => exact name_escaped plain found
  | bare _ plain =>
      intro source
      obtain ⟨c, more, same, begins, parts⟩ := isBareName_cases plain
      rw [same, List.cons_append] at found
      obtain ⟨taken, left⟩ := takeWhile_append_ends parts ends
      rw [name_bare begins found source, taken, left, ← same, String.ofList_toList]

theorem Spells.finds {token : List Char} {name : String} (spells : Spells token name)
    (ends : rest.head?.any isWordPart = false) (found : dropBlanks text = token ++ rest) :
    Spots source Cypher.name text name rest := fun shown skipped =>
  ⟨rest, .refl rest, spells.takes ends (by rw [skipped.dropBlanks_eq, found]) source⟩

section Items

variable {item : Parser α} {item? : Parser (Option α)} {a b : α} {fuel : Nat}

theorem length_of_visible (some_ : dropBlanks text ≠ []) {shown : List Char}
    (skipped : Skipped text shown) : ∃ n, shown.length = n + 1 := by
  have short := length_dropBlanks shown
  rw [skipped.dropBlanks_eq] at short
  have letters := List.length_pos_of_ne_nil some_
  exact ⟨shown.length - 1, by omega⟩

namespace Spots

theorem separatedFrom_one (found : Spots source item text a rest) (absent : Lacks [] [','] rest) :
    Spots source (separatedFrom item fuel) text [a] rest := by
  cases fuel with
  | zero => exact found.last rfl
  | succ fuel => exact found.bind (noMark absent (by decide) (.pure [a] rest))

theorem separated_one (found : Spots source item text a rest) (absent : Lacks [] [','] rest) :
    Spots source (separated item) text [a] rest := .of_get fun _ => found.separatedFrom_one absent

theorem separated_two (some_ : dropBlanks text ≠ []) (found : Spots source item text a middle)
    {behind : List Char} (comma : dropBlanks middle = ',' :: behind)
    (other : Spots source item behind b rest) (absent : Lacks [] [','] rest) :
    Spots source (separated item) text [a, b] rest := by
  have both (n : Nat) : Spots source (separatedFrom item (n + 1)) text [a, b] rest := by
    rw [separatedFrom_succ]
    exact found.bind (.mark comma ((other.separatedFrom_one absent).last rfl))
  intro shown skipped
  obtain ⟨n, long⟩ := length_of_visible some_ skipped
  have run := both n shown skipped
  rwa [← long] at run

theorem repeated_none (missing : Spots source item? text none text) :
    Spots source (repeated item?) text [] text := .of_get fun _ => missing.bind (.pure [] text)

theorem repeated_one (some_ : dropBlanks text ≠ [])
    (found : Spots source item? text (some a) rest)
    (missing : Spots source item? rest none rest) :
    Spots source (repeated item?) text [a] rest := by
  have nothing (n : Nat) : Spots source (repeatedFrom item? (n + 1)) rest [] rest :=
    missing.bind (.pure [] rest)
  have one (n : Nat) : Spots source (repeatedFrom item? (n + 2)) text [a] rest :=
    found.bind ((nothing n).last rfl)
  intro shown skipped
  obtain ⟨n, long⟩ := length_of_visible some_ skipped
  have run := one n shown skipped
  rwa [← show shown.length + 1 = n + 2 by omega] at run

/-- The text of an item is what was written, up to what comes next. -/
theorem withText {written : List Char} (shown_ : dropBlanks text = written ++ rest)
    (visible : Visible written) (finishes : Finishes [written]) (stays : dropBlanks rest = rest)
    (found : Spots source item (written ++ rest) a rest) :
    Spots source (withText item) text (a, String.ofList written) rest := by
  intro shown skipped
  obtain ⟨after, behind, run⟩ := found _ (.refl _)
  obtain rfl : after = rest := by
    rcases behind with rfl | same
    · rfl
    · rw [same, stays]
  have whole : ((Cypher.withText item).run source).run shown =
      ((item.run source).run (dropBlanks shown)) >>= fun found =>
        .ok ((found.1, String.ofList (Text.trim ((dropBlanks shown).take
          ((dropBlanks shown).length - found.2.length)))), found.2) := rfl
  have begins : Begins [written] := ⟨written, [], rfl, visible⟩
  have trimmed := trim_tokens begins finishes (List.forall_mem_nil _)
  rw [List.append_nil, spaced_cons, spaced_nil, List.append_nil, List.tail_cons] at trimmed
  refine ⟨after, behind, ?_⟩
  rw [whole, skipped.dropBlanks_eq, shown_, run]
  change Except.ok ((a, String.ofList (Text.trim _)), after) = _
  rw [List.length_append, Nat.add_sub_cancel, List.take_left, trimmed]

theorem returnItem {written : List Char} (shown_ : dropBlanks text = written ++ rest)
    (visible : Visible written) (finishes : Finishes [written]) (stays : dropBlanks rest = rest)
    (found : Spots source Cypher.expression (written ++ rest) e rest)
    (unnamed : Lacks ["AS"] [] rest) :
    Spots source Cypher.returnItem text ⟨e, none, String.ofList written⟩ rest :=
  (found.withText shown_ visible finishes stays).bind ((noKeyword? unnamed).last rfl)

end Spots

end Items

/-- The query that returns some items of what was found. -/
def returning (matches_ : List MatchClause) (items : List ReturnItem) : Query :=
  ⟨matches_, [], [], none, some ⟨false, items, [], none, none⟩⟩

namespace Spots

variable {items : List ReturnItem} {written : List Char} {q : Query}

theorem returnClause (listed : Spots source (separated Cypher.returnItem) text items [])
    (all : Lacks ["DISTINCT"] [] text) :
    Spots source Cypher.returnClause text ⟨false, items, [], none, none⟩ [] := by
  have none_ {β : Type} (word : String) (item : Parser β) (absent : Lacks [word] [] []) :
      Spots source (Cypher.keyword? word item) [] none [] := noKeyword? absent
  exact noKeyword all (by decide) (listed.bind ((none_ "ORDER" _ rfl).bind
    ((none_ "SKIP" _ rfl).bind ((none_ "LIMIT" _ rfl).last rfl))))

theorem queryEnd (found : dropBlanks text = "RETURN ".toList ++ written)
    (listed : Spots source (separated Cypher.returnItem) (' ' :: written) items [])
    (all : Lacks ["DISTINCT"] [] (' ' :: written)) (matches_ : List MatchClause) :
    Spots source (Cypher.queryEnd matches_) text (returning matches_ items) [] := by
  have lacks (word : String) (absent : lacks [word] [] ("RETURN ".toList ++ written) = true) :
      Lacks [word] [] text := by
    unfold Lacks
    rwa [found]
  have behind : afterKeyword? "RETURN".toList (dropBlanks text) = some (' ' :: written) := by
    rw [found]
    rfl
  have undeleted : Spots source deleteClause? text none text :=
    noKeyword (lacks "DETACH" rfl) (by decide) (noKeyword? (lacks "DELETE" rfl))
  refine (noKeyword? (lacks "CREATE" rfl)).bind ((noKeyword? (lacks "SET" rfl)).bind
    (undeleted.bind ((keyword? behind (listed.returnClause all)).bind ?_)))
  have some_ : Query.isEmpty (returning matches_ items) = false := by
    rw [Query.isEmpty]
    exact Bool.and_false _
  change Spots source (do
    if Query.isEmpty (returning matches_ items) then throw (.expectedClause (← snippet))
    return returning matches_ items) [] (returning matches_ items) []
  rw [some_]
  exact .pure _ []

theorem statement (found : Spots source query text q []) (absent : Lacks ["EXPLAIN"] [] text) :
    (statement.run source).run text = .ok (⟨false, q⟩, []) := by
  have whole : Spots source Cypher.statement text ⟨false, q⟩ [] := by
    have nothing : Lacks [] [';'] [] := rfl
    refine noKeyword absent (by decide) (found.bind (noMark nothing (by decide) ?_))
    exact .of_run rfl rfl
  obtain ⟨after, ends, run⟩ := whole text (.refl text)
  obtain rfl : after = [] := by rcases ends with rfl | rfl <;> rfl
  exact run

end Spots

/-- RETURN and one item alone make a statement. -/
theorem Spots.statement_of_item {written : List Char} (visible : Visible written)
    (finishes : Finishes [written]) (all : Lacks ["DISTINCT"] [] (' ' :: written))
    (found : Spots source Cypher.expression written e []) :
    (Cypher.statement.run source).run ("RETURN ".toList ++ written) =
      .ok (⟨false, returning [] [⟨e, none, String.ofList written⟩]⟩, []) := by
  have shown_ : dropBlanks (' ' :: written) = written ++ [] := by
    rw [← visible.dropBlanks_eq [], List.append_nil]
  have inside : Spots source Cypher.expression (written ++ []) e [] := by rwa [List.append_nil]
  have last {words : List String} {marks : List Char} (absent : lacks words marks [] = true) :
      Lacks words marks [] := absent
  have item : Spots source (separated Cypher.returnItem) (' ' :: written)
      [⟨e, none, String.ofList written⟩] [] :=
    (inside.returnItem shown_ visible finishes rfl (last rfl)).separated_one (last rfl)
  have unmatched : Lacks ["MATCH"] [] ("RETURN ".toList ++ written) := rfl
  have nothing : Spots source (repeated matchClause?) ("RETURN ".toList ++ written) []
      ("RETURN ".toList ++ written) := .repeated_none (.noKeyword? unmatched)
  have whole : Spots source query ("RETURN ".toList ++ written)
      (returning [] [⟨e, none, String.ofList written⟩]) [] := by
    rw [query_eq]
    exact nothing.bind (item.queryEnd rfl all [])
  have unexplained : Lacks ["EXPLAIN"] [] ("RETURN ".toList ++ written) := rfl
  exact whole.statement unexplained

theorem parse_of_item {written : List Char} {parameters : Properties} (visible : Visible written)
    (finishes : Finishes [written]) (all : Lacks ["DISTINCT"] [] (' ' :: written))
    (found : ∀ bytes, Spots ⟨bytes, parameters⟩ expression written e []) :
    Statement.parse ("RETURN " ++ String.ofList written) parameters =
      .ok ⟨false, returning [] [⟨e, none, String.ofList written⟩]⟩ := by
  have chars : ("RETURN " ++ String.ofList written).toList = "RETURN ".toList ++ written := by
    rw [String.toList_append, @String.toList_ofList written]
  have run (bytes : Nat) := (found bytes).statement_of_item visible finishes all
  refine parse_of_run ?_
  rw [chars]
  exact run _

end PropertyGraph.Cypher
