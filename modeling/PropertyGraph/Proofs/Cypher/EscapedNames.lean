import PropertyGraph.Proofs.Cypher.AsWritten

/-!
Names between backticks. They are taken wherever names are, and stand for variables in expressions;
there alone a name that spells a reserved word is refused, between backticks or not.
-/

namespace PropertyGraph

open Cypher

namespace Cypher

variable {source : Source} {nested : Parser Expression} {x key : String} {e : Expression}
  {token text middle rest : List Char}

namespace Spots

theorem escaped (plain : '`' ∉ x.toList) : Spots source name (escapedName x ++ rest) x rest :=
  .of_run rfl (name_escaped plain rfl source)

theorem optionalName (plain : '`' ∉ x.toList) :
    Spots source Cypher.optionalName (escapedName x ++ rest) (some x) rest := by
  have here : Takes atName (escapedName x ++ rest) true (escapedName x ++ rest) := fun _ => rfl
  exact .of_run rfl (((Takes.skipBlanks _).bind (here.bind
    ((name_escaped plain rfl).bind (.pure (some x) rest)))) source)

theorem of_behindName (plain : '`' ∉ x.toList)
    (found : Spots source (behindName nested x) middle e rest) :
    Spots source (primary nested) (escapedName x ++ middle) e rest := by
  have noText : Spots source string? (escapedName x ++ middle) none (escapedName x ++ middle) :=
    .of_run rfl (string?_absent rfl source)
  have noDigit : Spots source atDigit (escapedName x ++ middle) false (escapedName x ++ middle) :=
    .of_run rfl rfl
  have here : Spots source atName (escapedName x ++ middle) true (escapedName x ++ middle) :=
    .of_run rfl rfl
  have absent : Lacks ["TRUE", "FALSE", "NULL"] [] (escapedName x ++ middle) := rfl
  have word_ : Spots source (word nested) (escapedName x ++ middle) e rest :=
    noKeyword absent (by decide) (noKeyword absent (by decide) (noKeyword absent (by decide)
      (here.bind ((escaped plain).bind found))))
  exact .bare rfl (noText.bind (noDigit.bind word_))

/-- A variable, if neither a call nor a property goes on with it. -/
theorem reference (plain : '`' ∉ x.toList) (free : isReserved x = false)
    (alone : Lacks [] ['(', '.'] rest) :
    Spots source (primary nested) (escapedName x ++ rest) (.reference x) rest := by
  apply of_behindName plain
  rw [behindName, free]
  exact noMark alone (by decide) (noMark alone (by decide) (.pure _ rest))

theorem property (plain : '`' ∉ x.toList) (free : isReserved x = false)
    (spells : Spells token key) (ends : rest.head?.any isWordPart = false) :
    Spots source (primary nested) (escapedName x ++ '.' :: (token ++ rest)) (.property x key)
      rest := by
  apply of_behindName plain
  rw [behindName, free]
  have absent : Lacks [] ['('] ('.' :: (token ++ rest)) := rfl
  have key_ : Spots source name (token ++ rest) key rest := by
    obtain ⟨c, more, rfl, first, second⟩ := spells.visible
    exact spells.finds ends (dropBlanks_visible first second _)
  refine noMark absent (by decide) ?_
  exact mark (dropBlanks_visible rfl (by decide) _) (key_.last rfl)

theorem expression_of_escaped
    (found : ∀ nested, Spots source (primary nested) (escapedName x ++ middle) e rest)
    (ends : Concludes rest) :
    Spots source Cypher.expression (escapedName x ++ middle) e rest :=
  .expression (fun nested => .unsigned rfl (found nested)) rfl ends

theorem nodePattern (plain : '`' ∉ x.toList)
    (found : dropBlanks text = '(' :: (escapedName x ++ ')' :: rest)) :
    Spots source Cypher.nodePattern text ⟨some x, [], []⟩ rest := by
  have closes : dropBlanks (')' :: rest) = ')' :: rest := dropBlanks_visible rfl (by decide) rest
  have absent : Lacks [] [':', '{'] (')' :: rest) := by
    unfold Lacks
    rw [closes]
    rfl
  have labels : Spots source (repeated label?) (')' :: rest) [] (')' :: rest) :=
    .repeated_none (noMark absent (by decide) (.pure none _))
  have properties_ : Spots source properties (')' :: rest) [] (')' :: rest) :=
    noMark absent (by decide) (.pure [] _)
  exact expect found ((optionalName plain).bind (labels.bind (properties_.bind
    (expect closes (.pure _ rest)))))

theorem matchClause? (plain : '`' ∉ x.toList)
    (absent : Lacks ["WHERE"] ['-', '<', ','] rest) :
    Spots source Cypher.matchClause? ("MATCH (".toList ++ (escapedName x ++ ')' :: rest))
      (some ⟨[⟨⟨some x, [], []⟩, []⟩], none⟩) rest := by
  have unlinked : Lacks [] ['-', '<'] rest := absent.imp (List.nil_subset _) (by decide)
  have chain_ : Spots source (repeated chainLink?) rest [] rest :=
    .repeated_none (of_parses chainLink?_misses unlinked)
  have path : Spots source pathPattern (' ' :: '(' :: (escapedName x ++ ')' :: rest))
      ⟨⟨some x, [], []⟩, []⟩ rest := (nodePattern plain rfl).bind (chain_.last rfl)
  have patterns_ : Spots source patterns (' ' :: '(' :: (escapedName x ++ ')' :: rest))
      [⟨⟨some x, [], []⟩, []⟩] rest :=
    path.separated_one (absent.imp (List.nil_subset _) (by decide))
  have unfiltered : Spots source (Cypher.keyword? "WHERE" Cypher.expression) rest none rest :=
    noKeyword? (absent.imp (by decide) (List.nil_subset _))
  exact keyword? rfl (patterns_.bind (unfiltered.last rfl))

theorem escapedItems (plain : '`' ∉ x.toList) (free : isReserved x = false)
    (spells : Spells token key) :
    Spots source (separated Cypher.returnItem)
      (' ' :: (escapedName x ++ ',' :: ' ' :: (escapedName x ++ '.' :: token)))
      [⟨.reference x, none, String.ofList (escapedName x)⟩,
        ⟨.property x key, none, String.ofList (escapedName x ++ '.' :: token)⟩] [] := by
  have nothing {words : List String} {marks : List Char} (absent : lacks words marks [] = true) :
      Lacks words marks [] := absent
  have comma {words : List String} {marks : List Char} (more : List Char)
      (absent : lacks words marks (',' :: more) = true) : Lacks words marks (',' :: more) := absent
  have variable_ : Spots source Cypher.expression (escapedName x ++ ',' :: ' ' :: (escapedName x ++
      '.' :: token)) (.reference x) (',' :: ' ' :: (escapedName x ++ '.' :: token)) :=
    expression_of_escaped (fun nested => reference plain free (comma _ rfl)) (comma _ rfl)
  have property_ : Spots source Cypher.expression ((escapedName x ++ '.' :: token) ++ [])
      (.property x key) [] := by
    rw [List.append_nil]
    refine expression_of_escaped (fun nested => ?_) (nothing rfl)
    have found : Spots source (primary nested) (escapedName x ++ '.' :: (token ++ []))
        (.property x key) [] := property plain free spells rfl
    rwa [List.append_nil] at found
  have first : Spots source Cypher.returnItem
      (' ' :: (escapedName x ++ ',' :: ' ' :: (escapedName x ++ '.' :: token)))
      ⟨.reference x, none, String.ofList (escapedName x)⟩
      (',' :: ' ' :: (escapedName x ++ '.' :: token)) :=
    variable_.returnItem rfl (.of_head rfl (by decide) _)
      (Spells.escaped x plain).finishes rfl (comma _ rfl)
  have shown : dropBlanks (' ' :: (escapedName x ++ '.' :: token)) =
      (escapedName x ++ '.' :: token) ++ [] := (List.append_nil _).symm
  have second : Spots source Cypher.returnItem (' ' :: (escapedName x ++ '.' :: token))
      ⟨.property x key, none, String.ofList (escapedName x ++ '.' :: token)⟩ [] := by
    refine property_.returnItem shown (.of_head rfl (by decide) _) ?_ rfl (nothing rfl)
    have finishes := spells.finishes.prefixed (escapedName x ++ ['.'])
    rwa [List.append_assoc] at finishes
  exact separated_two (List.cons_ne_nil _ _) first rfl second (nothing rfl)

theorem query_escaped (plain : '`' ∉ x.toList) (free : isReserved x = false)
    (spells : Spells token key) :
    Spots source query ("MATCH (".toList ++ (escapedName x ++ ')' :: ' ' :: ("RETURN ".toList ++
        (escapedName x ++ ',' :: ' ' :: (escapedName x ++ '.' :: token)))))
      (returning [⟨[⟨⟨some x, [], []⟩, []⟩], none⟩]
        [⟨.reference x, none, String.ofList (escapedName x)⟩,
          ⟨.property x key, none, String.ofList (escapedName x ++ '.' :: token)⟩]) [] := by
  have behind {words : List String} {marks : List Char} (more : List Char)
      (absent : lacks words marks ("RETURN ".toList ++ more) = true) :
      Lacks words marks (' ' :: ("RETURN ".toList ++ more)) := absent
  have matched : Spots source Cypher.matchClause? _ (some ⟨[⟨⟨some x, [], []⟩, []⟩], none⟩) _ :=
    matchClause? plain (behind (escapedName x ++ ',' :: ' ' :: (escapedName x ++ '.' :: token)) rfl)
  have shown : dropBlanks ("MATCH (".toList ++ (escapedName x ++ ')' :: ' ' ::
      ("RETURN ".toList ++ (escapedName x ++ ',' :: ' ' :: (escapedName x ++ '.' :: token))))) ≠
        [] := List.cons_ne_nil 'M' _
  have clauses := matched.repeated_one shown
    (noKeyword? (behind (escapedName x ++ ',' :: ' ' :: (escapedName x ++ '.' :: token)) rfl))
  rw [query_eq]
  exact clauses.bind ((escapedItems plain free spells).queryEnd rfl rfl _)

end Spots

/-- A name between backticks as it is written. -/
def escapedText (name : String) : String := String.ofList (escapedName name)

/-- A node with a name between backticks is returned, and a property of it. -/
theorem parse_escaped (plain : '`' ∉ x.toList) (free : isReserved x = false)
    (spells : Spells token key) (parameters : Properties) :
    Statement.parse ("MATCH (" ++ escapedText x ++ ") RETURN " ++ escapedText x ++ ", " ++
        escapedText x ++ "." ++ String.ofList token) parameters =
      .ok ⟨false, returning [⟨[⟨⟨some x, [], []⟩, []⟩], none⟩]
        [⟨.reference x, none, escapedText x⟩,
          ⟨.property x key, none, escapedText x ++ "." ++ String.ofList token⟩]⟩ := by
  have column : escapedText x ++ "." ++ String.ofList token =
      String.ofList (escapedName x ++ '.' :: token) := String.toList_inj.mp (by simp [escapedText])
  have chars : ("MATCH (" ++ escapedText x ++ ") RETURN " ++ escapedText x ++ ", " ++
      escapedText x ++ "." ++ String.ofList token).toList = "MATCH (".toList ++
        (escapedName x ++ ')' :: ' ' :: ("RETURN ".toList ++ (escapedName x ++ ',' :: ' ' ::
          (escapedName x ++ '.' :: token)))) := by simp [escapedText]
  apply parse_of_run
  rw [chars, column]
  exact Spots.statement (Spots.query_escaped plain free spells) rfl

end Cypher

/-- Between backticks every name is a variable but a reserved word: of a node that is matched and
returned, wherever names are taken, and in expressions, alone or in front of a property. -/
theorem Statement.escaped_names_are_variables {x : String} (plain : '`' ∉ x.toList)
    (free : isReserved x = false) :
    (∀ token key parameters, Spells token key →
      Statement.parse ("MATCH (" ++ escapedText x ++ ") RETURN " ++ escapedText x ++ ", " ++
          escapedText x ++ "." ++ String.ofList token) parameters =
        .ok ⟨false, returning [⟨[⟨⟨some x, [], []⟩, []⟩], none⟩]
          [⟨.reference x, none, escapedText x⟩,
            ⟨.property x key, none, escapedText x ++ "." ++ String.ofList token⟩]⟩) ∧
    (∀ source rest, Spots source name (escapedName x ++ rest) x rest ∧
      Spots source optionalName (escapedName x ++ rest) (some x) rest) ∧
    ∀ source nested rest,
      (Lacks [] ['(', '.'] rest →
        Spots source (primary nested) (escapedName x ++ rest) (.reference x) rest) ∧
      ∀ token key, Spells token key → rest.head?.any isWordPart = false →
        Spots source (primary nested) (escapedName x ++ '.' :: (token ++ rest)) (.property x key)
          rest := by
  refine ⟨fun token key parameters spells => parse_escaped plain free spells parameters, ?_, ?_⟩
  · exact fun source rest => ⟨.escaped plain, .optionalName plain⟩
  intro source nested rest
  constructor
  · exact fun alone => .reference plain free alone
  · exact fun token key spells ends => .property plain free spells ends

/-- A word for a literal is a variable between backticks. -/
theorem Statement.literal_words_are_variables_between_backticks :
    ('`' ∉ "true".toList ∧ isReserved "true" = false ∧ Spells ['k'] "k") ∧
      Statement.parse
          "MATCH (`true`) RETURN `true`, `true`.k" [] =
        .ok ⟨false, returning [⟨[⟨⟨some "true", [], []⟩, []⟩], none⟩]
          [⟨.reference "true", none, "`true`"⟩,
            ⟨.property "true" "k", none, "`true`.k"⟩]⟩ := by
  have plain : '`' ∉ "true".toList := by decide
  have key : Spells ['k'] "k" := .bare "k" (by decide)
  have text : "MATCH (" ++ escapedText "true" ++ ") RETURN " ++ escapedText "true" ++ ", " ++
      escapedText "true" ++ "." ++ String.ofList ['k'] =
        "MATCH (`true`) RETURN `true`, `true`.k" := by decide
  have parsed := (Statement.escaped_names_are_variables plain (by decide)).1 ['k'] "k" [] key
  rw [text] at parsed
  exact ⟨⟨plain, by decide, key⟩, parsed⟩

/-- A reserved word between backticks is a name in a pattern and behind DELETE, but in an expression
it is taken for the keyword. -/
theorem Statement.reserved_words_are_refused_between_backticks :
    (Statement.parse "MATCH (`order`) DELETE `order`" []).isOk = true ∧
      Statement.parse "MATCH (`order`) RETURN `order`" [] =
        .error (.unexpectedKeyword "order") := by
  have checked : (match Statement.parse "MATCH (`order`) RETURN `order`" [] with
      | .error (.unexpectedKeyword name) => name == "order"
      | _ => false) = true := by decide +kernel
  refine ⟨by decide +kernel, ?_⟩
  split at checked
  · next name found => rw [found, beq_iff_eq.mp checked]
  · cases checked

end PropertyGraph
