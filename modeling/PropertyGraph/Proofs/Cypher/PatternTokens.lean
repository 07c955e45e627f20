import PropertyGraph.Proofs.Cypher.QueryTokens

/-!
Patterns are read back from their tokens. Everything inside a pattern ends before a mark, which
tells what comes next.
-/

namespace PropertyGraph.Cypher

variable {α β : Type} {follows : List Char → Prop} {tokens : List Token} {rest : List Char}
  {print : Expression → List Token}

/-- One of these marks. -/
def AtMark (marks : List Char) (rest : List Char) : Prop :=
  ∃ c ∈ marks, ∃ more, rest = ' ' :: c :: more

/-- What neither is skipped nor begins a name, a number or an expression. -/
def isMark (c : Char) : Bool :=
  !Text.isBlank c && c != '/' && !startsName c && !isDigit c

/-- No tokens, or one of these marks first. -/
def StartsMark (marks : List Char) (tokens : List Token) : Prop :=
  tokens = [] ∨ ∃ c ∈ marks, ∃ more, tokens = [c] :: more

namespace AtMark

variable {marks others : List Char}

theorem mono (stands : AtMark marks rest) (included : marks ⊆ others) : AtMark others rest := by
  obtain ⟨c, member, more, rfl⟩ := stands
  exact ⟨c, included member, more, rfl⟩

theorem append {following : List Token} (stands : AtMark marks (spaced following ++ rest))
    (starts : StartsMark others tokens) :
    AtMark (others ++ marks) (spaced (tokens ++ following) ++ rest) := by
  rcases starts with rfl | ⟨c, member, more, rfl⟩
  · exact stands.mono (List.subset_append_right others marks)
  · exact ⟨c, List.mem_append_left marks member, _, rfl⟩

theorem spaces (stands : AtMark marks rest) : Spaced rest := by
  obtain ⟨c, _, more, rfl⟩ := stands
  exact .inr ⟨_, rfl⟩

theorem head (stands : AtMark marks rest) (shown : marks.all isMark = true) :
    ∃ c ∈ marks, (dropBlanks rest).head? = some c ∧ isMark c = true := by
  obtain ⟨c, member, more, rfl⟩ := stands
  have shown := List.all_eq_true.mp shown c member
  have mark := shown
  simp only [isMark, Bool.and_eq_true, Bool.not_eq_true', bne_iff_ne] at mark
  have visible := (Visible.of_head mark.1.1.1 mark.1.1.2 []).dropBlanks_eq more
  refine ⟨c, member, ?_, shown⟩
  rw [List.singleton_append] at visible
  rw [visible, List.head?_cons]

theorem lacks (stands : AtMark marks rest) (shown : marks.all isMark = true)
    (apart : others.any marks.contains = false) : Lacks [] others rest := by
  obtain ⟨c, member, here, _⟩ := stands.head shown
  refine .intro nofun fun d found same => ?_
  rw [here] at same
  cases Option.some.inj same
  exact List.any_eq_false.mp apart _ found (List.contains_iff_mem.mpr member)

theorem noName (stands : AtMark marks rest) (shown : marks.all isMark = true) :
    (dropBlanks rest).head?.any startsName = false := by
  obtain ⟨c, _, here, mark⟩ := stands.head shown
  simp only [isMark, Bool.and_eq_true, Bool.not_eq_true'] at mark
  rw [here]
  exact mark.1.2

theorem noDigit (stands : AtMark marks rest) (shown : marks.all isMark = true) :
    (dropBlanks rest).head?.any isDigit = false := by
  obtain ⟨c, _, here, mark⟩ := stands.head shown
  simp only [isMark, Bool.and_eq_true, Bool.not_eq_true'] at mark
  rw [here]
  exact mark.2

end AtMark

theorem ahead_parses {accept : Char → Bool} {test : Parser Bool} {next : Bool → Parser β} {b : β}
    (seen : Bool) (looks : ∀ text, Takes test text (text.head?.any accept) text)
    (here : ∀ rest, follows rest → (dropBlanks (spaced tokens ++ rest)).head?.any accept = seen)
    (two : Parses follows (next seen) tokens b) :
    Parses follows (do
      skipBlanks
      next (← test)) tokens b := by
  intro text rest skipped ends
  have shown : dropBlanks text = dropBlanks (spaced tokens ++ rest) := skipped.dropBlanks_eq
  obtain ⟨after, behind, taken⟩ := two (dropBlanks text) rest (.inr shown) ends
  refine ⟨after, behind, (Takes.skipBlanks text).bind ((looks _).bind ?_)⟩
  rw [shown] at taken ⊢
  rw [here rest ends]
  exact taken

/-- What tells that there is nothing of a kind, or where it ends. -/
structure Without (accept : Char → Bool) (rest : List Char) : Prop where
  spaces : Spaced rest
  absent : (dropBlanks rest).head?.any accept = false

theorem optionalName_parses {name : Option String} (bare : ∀ n ∈ name, isBareName n = true) :
    Parses (Without startsName) optionalName (optionalTokens name) name := by
  cases name with
  | none => exact ahead_parses false atName_takes (fun rest ends => ends.absent) (.pure none)
  | some name =>
      have plain := bare name rfl
      have named : Parses (Without startsName) (do return some (← Cypher.name)) [name.toList]
          (some name) :=
        ((name_parses plain).weaken fun rest ends => ends.spaces).last rfl
      refine ahead_parses true atName_takes (fun rest ends => ?_) named
      obtain ⟨c, more, same, begins, _⟩ := isBareName_cases plain
      rw [optionalTokens, (Skipped.refl _).first (.of_name plain), same]
      exact (Bool.or_eq_true _ _).mpr (.inl begins)

theorem marked_parses {c : Char} {item? : Parser (Option String)} {names : List String}
    (visible : Text.isBlank c = false) (other : c ≠ '/')
    (each : ∀ name ∈ names, Parses Spaced item? [[c], name.toList] (some name))
    (missing : Parses follows item? [] none) (spaces : ∀ rest, follows rest → Spaced rest) :
    Parses follows (repeated item?) (names.map fun name => [[c], name.toList]).flatten names := by
  refine repeated_parses ?_ ?_ missing spaces fun part _ rest spaces => spaces.tokens part
  · intro part member
    obtain ⟨name, _, rfl⟩ := List.mem_map.mp member
    exact ⟨_, _, rfl, .of_head visible other []⟩
  · rw [List.forall₂_map_left_iff, List.forall₂_same]
    exact each

theorem label?_parses {label : String} (bare : isBareName label = true) :
    Parses Spaced label? [[':'], label.toList] (some label) :=
  .mark rfl (by decide) ((name_parses bare).last rfl)

theorem labels_parses {labels : List String} (bare : ∀ label ∈ labels, isBareName label = true) :
    Parses (AtMark ['{', ')']) (repeated label?)
      (labels.map fun label => [[':'], label.toList]).flatten labels := by
  have missing : Parses (AtMark ['{', ')']) label? [] none :=
    .noMark (.pure none) fun rest stands => stands.lacks rfl rfl
  exact marked_parses rfl (by decide) (fun label member => label?_parses (bare label member))
    missing fun rest stands => stands.spaces

theorem propertyTokens_cons (entry : String × Expression) (entries : List (String × Expression)) :
    propertyTokens print (entry :: entries) = ['{'] ::
      (commas ((entry :: entries).map (entryTokens print)) ++ [['}']]) := rfl

theorem properties_parses {entries : List (String × Expression)}
    (back : ∀ entry ∈ entries, PrintsBack print entry.2) :
    Parses (Lacks [] ['{']) properties (propertyTokens print entries) entries := by
  cases entries with
  | nil => exact .noMark (.pure []) fun rest absent => absent
  | cons entry others =>
      rw [propertyTokens_cons]
      refine .mark rfl (by decide) (mapEntries_parses ?_)
      rw [List.forall₂_map_left_iff, List.forall₂_same]
      exact fun entry member => ⟨print entry.2, rfl, (back entry member).parses⟩

theorem starts_labels (labels : List String) :
    StartsMark [':'] (labels.map fun label => [[':'], label.toList]).flatten := by
  cases labels with
  | nil => exact .inl rfl
  | cons label others => exact .inr ⟨':', List.mem_singleton_self _, _, rfl⟩

theorem starts_properties (entries : List (String × Expression)) :
    StartsMark ['{'] (propertyTokens print entries) := by
  cases entries with
  | nil => exact .inl rfl
  | cons entry others => exact .inr ⟨'{', List.mem_singleton_self _, _, rfl⟩

/-- Behind a node anything may stand. -/
theorem nodePattern_parses {n : NodePattern} (writable : n.Writable print) :
    Parses follows nodePattern (n.tokens print) n := by
  have closed : Parses follows (do
      expectChar ')'
      return n) [[')']] n := Closes.parenthesis.parses.last rfl
  have ends (rest : List Char) : AtMark [')'] (spaced [[')']] ++ rest) :=
    ⟨')', List.mem_singleton_self _, rest, rfl⟩
  have last (rest : List Char) : AtMark ['{', ')']
      (spaced (propertyTokens print n.properties ++ [[')']]) ++ rest) :=
    (ends rest).append (starts_properties _)
  have labelled (rest : List Char) : AtMark [':', '{', ')']
      (spaced ((n.labels.map fun label => [[':'], label.toList]).flatten ++
        (propertyTokens print n.properties ++ [[')']])) ++ rest) :=
    (last rest).append (starts_labels _)
  refine .expect rfl (by decide) ?_
  refine (optionalName_parses writable.name).bind ?_ fun rest _ =>
    ⟨(labelled rest).spaces, (labelled rest).noName rfl⟩
  refine (labels_parses writable.labels).bind ?_ fun rest _ => last rest
  exact (properties_parses writable.properties).bind closed fun rest _ => (ends rest).lacks rfl rfl

theorem anotherType?_parses {type : String} (bare : isBareName type = true) :
    Parses Spaced anotherType? [['|'], type.toList] (some type) := by
  have named : Parses Spaced (do return some (← name)) [type.toList] (some type) :=
    (name_parses bare).last rfl
  refine .mark rfl (by decide) (.noMark named fun rest spaces => ?_)
  rw [spaced_cons, spaced_nil, List.append_nil, List.cons_append]
  exact .of_name bare spaces nofun rfl

theorem types_parses {types : List String} (bare : ∀ type ∈ types, isBareName type = true) :
    Parses (AtMark ['*', '{', ']']) Cypher.types (typeTokens types) types := by
  cases types with
  | nil => exact .noMark (.pure []) fun rest stands => stands.lacks rfl rfl
  | cons first others =>
      rw [List.forall_mem_cons] at bare
      have missing : Parses (AtMark ['*', '{', ']']) anotherType? [] none :=
        .noMark (.pure none) fun rest stands => stands.lacks rfl rfl
      have rest_ : Parses (AtMark ['*', '{', ']']) (repeated anotherType?)
          (others.map fun type => [['|'], type.toList]).flatten others :=
        marked_parses rfl (by decide) (fun type member => anotherType?_parses (bare.2 type member))
          missing fun rest stands => stands.spaces
      refine .mark rfl (by decide) ?_
      exact (name_parses bare.1).bind (rest_.last rfl) fun rest stands => stands.spaces.tokens _

theorem length_parses {n : Nat} (fits : n < twoTo 32) :
    Parses Spaced Cypher.length [digitChars n] n := by
  intro text rest skipped spaces
  have shown := skipped.first (.of_number n)
  rw [spaced_nil, List.nil_append] at shown
  obtain ⟨taken, left⟩ := spaces.takeWhile (by decide) (digitChars_isDigit n)
  refine ⟨rest, .refl rest, fun source => ?_⟩
  have run : (Cypher.length.run source).run text =
      (((if ((dropBlanks text).takeWhile isDigit).isEmpty
          || digitsValue ((dropBlanks text).takeWhile isDigit) ≥ twoTo 32 then
          throw .expectedInteger
        else return digitsValue ((dropBlanks text).takeWhile isDigit) : Parser Nat).run source).run
          ((dropBlanks text).dropWhile isDigit)) := rfl
  obtain ⟨c, more, same, _⟩ := digitChars_cases n
  rw [run, shown, taken, left, digitsValue_digitChars, if_neg]
  · rfl
  · rw [same, List.isEmpty_cons, Bool.false_or, decide_eq_true_eq]
    exact Nat.not_le_of_lt fits

def boundTokens : Option Nat → List Token
  | none => []
  | some n => [digitChars n]

theorem optionalLength_parses {bound : Option Nat} (fits : ∀ n ∈ bound, n < twoTo 32) :
    Parses (Without isDigit) optionalLength (boundTokens bound) bound := by
  cases bound with
  | none => exact ahead_parses false atDigit_takes (fun rest ends => ends.absent) (.pure none)
  | some n =>
      have counted : Parses (Without isDigit) (do return some (← Cypher.length)) [digitChars n]
          (some n) :=
        ((length_parses (fits n rfl)).weaken fun rest ends => ends.spaces).last rfl
      refine ahead_parses true atDigit_takes (fun rest ends => ?_) counted
      obtain ⟨c, more, same, digit⟩ := digitChars_cases n
      rw [boundTokens, (Skipped.refl _).first (.of_number n), same]
      exact digit

section Ranges

variable {least greatest : Option Nat}

theorem dotted_parses (fits : ∀ n ∈ least, n < twoTo 32) (fitsToo : ∀ n ∈ greatest, n < twoTo 32)
    (ordered : ∀ n ∈ greatest, least.getD 1 ≤ n) :
    Parses (AtMark ['{', ']']) pathLength
      (boundTokens least ++ (['.', '.'] :: boundTokens greatest)) ⟨least.getD 1, greatest⟩ := by
  have dots : Parses (fun _ => True) (tryMark ['.', '.']) [['.', '.']] true :=
    tryMark_parses (.of_head rfl (by decide) ['.'])
  have valid : (greatest.any (· < least.getD 1)) = false := by
    rw [Option.any_eq_false]
    intro n member
    have := ordered n member
    simpa using this
  have behind : Parses (AtMark ['{', ']']) (do
      let greatest ← optionalLength
      if greatest.any (· < least.getD 1) then
        throw (.invalidRange (least.getD 1) (greatest.getD 0))
      return ⟨least.getD 1, greatest⟩) (boundTokens greatest ++ [])
      (PathLength.mk (least.getD 1) greatest) := by
    refine (optionalLength_parses fitsToo).bind ?_ fun rest stands =>
      ⟨stands.spaces, stands.noDigit rfl⟩
    rw [valid]
    exact .pure _
  rw [List.append_nil] at behind
  refine (optionalLength_parses fits).bind ?_ fun rest stands => ⟨.inr ⟨_, rfl⟩, rfl⟩
  exact dots.bind behind fun _ _ => trivial

theorem single_parses (fits : ∀ n ∈ least, n < twoTo 32) :
    Parses (AtMark ['{', ']']) pathLength (boundTokens least) ⟨least.getD 1, least⟩ := by
  have single : Parses (AtMark ['{', ']']) pathLength (boundTokens least ++ [])
      ⟨least.getD 1, least⟩ := by
    refine (optionalLength_parses fits).bind ?_ fun rest stands =>
      ⟨stands.spaces, stands.noDigit rfl⟩
    refine (tryMark_lacking ['.'] (List.mem_singleton_self '.')).look ?_ fun rest stands =>
      stands.lacks rfl rfl
    cases least with
    | none => exact .pure _
    | some n => exact .pure _
  rwa [List.append_nil] at single

end Ranges

theorem pathLength_parses {terse : Bool} {range : PathLength} (writable : range.Writable) :
    Parses (AtMark ['{', ']']) pathLength (range.tokens terse) range := by
  obtain ⟨least, greatest⟩ := range
  obtain ⟨fits, above⟩ := writable
  have lower : ∀ n ∈ some least, n < twoTo 32 := fun n member => Option.some.inj member ▸ fits
  have missing : ∀ n ∈ (none : Option Nat), n < twoTo 32 := nofun
  cases greatest with
  | none =>
      rw [PathLength.tokens]
      split
      · next short =>
          cases eq_of_beq ((Bool.and_eq_true _ _).mp short).2
          exact single_parses missing
      · exact dotted_parses lower missing nofun
  | some greatest =>
      have upper : ∀ n ∈ some greatest, n < twoTo 32 := fun n member => (above n member).2
      have ordered : ∀ n ∈ some greatest, least ≤ n := fun n member => (above n member).1
      rw [PathLength.tokens]
      split
      · next same =>
          cases eq_of_beq ((Bool.and_eq_true _ _).mp same).2
          exact single_parses lower
      · split
        · next short =>
            cases eq_of_beq ((Bool.and_eq_true _ _).mp short).2
            exact dotted_parses missing upper ordered
        · exact dotted_parses lower upper ordered

section Relationships

variable {terse : Bool} {r : RelationshipPattern}

theorem starts_types (types : List String) : StartsMark [':'] (typeTokens types) := by
  cases types with
  | nil => exact .inl rfl
  | cons first others => exact .inr ⟨':', List.mem_singleton_self _, _, rfl⟩

theorem starts_length (range : Option PathLength) :
    StartsMark ['*'] (lengthTokens terse range) := by
  cases range with
  | none => exact .inl rfl
  | some range => exact .inr ⟨'*', List.mem_singleton_self _, _, rfl⟩

theorem starred_parses {range : Option PathLength} {next : Option PathLength → Parser β} {b : β}
    (writable : ∀ l ∈ range, l.Writable) (two : Parses follows (next range) tokens b)
    (fits : ∀ rest, follows rest → AtMark ['{', ']'] (spaced tokens ++ rest)) :
    Parses follows (tryChar '*' >>= fun star =>
        if star then (some <$> pathLength) >>= next else Pure.pure none >>= next)
      (lengthTokens terse range ++ tokens) b := by
  cases range with
  | none =>
      exact .noMark two fun rest ends => (fits rest ends).lacks rfl rfl
  | some range =>
      have inside : Parses (AtMark ['{', ']']) (some <$> pathLength) (range.tokens terse)
          (some range) := by
        rw [map_eq_pure_bind]
        exact (pathLength_parses (writable range rfl)).last rfl
      exact .mark rfl (by decide) (inside.bind two fits)

theorem relationshipBody_parses (writable : r.Writable print) :
    Parses follows relationshipBody (r.inside terse print ++ [[']']])
      (fun direction => ⟨r.name, r.types, r.properties, direction, r.length⟩) := by
  have closed : Parses follows (do
      expectChar ']'
      return fun direction => ⟨r.name, r.types, r.properties, direction, r.length⟩) [[']']]
      (fun direction => RelationshipPattern.mk r.name r.types r.properties direction r.length) :=
    Closes.bracket.parses.last rfl
  have ends (rest : List Char) : AtMark [']'] (spaced [[']']] ++ rest) :=
    ⟨']', List.mem_singleton_self _, rest, rfl⟩
  have last (rest : List Char) : AtMark ['{', ']']
      (spaced (propertyTokens print r.properties ++ [[']']]) ++ rest) :=
    (ends rest).append (starts_properties _)
  have ranged (rest : List Char) : AtMark ['*', '{', ']'] (spaced (lengthTokens terse r.length ++
      (propertyTokens print r.properties ++ [[']']])) ++ rest) :=
    (last rest).append (starts_length _)
  have typed (rest : List Char) : AtMark [':', '*', '{', ']'] (spaced (typeTokens r.types ++
      (lengthTokens terse r.length ++ (propertyTokens print r.properties ++ [[']']]))) ++ rest) :=
    (ranged rest).append (starts_types _)
  rw [RelationshipPattern.inside, List.append_assoc, List.append_assoc, List.append_assoc]
  refine (optionalName_parses writable.name).bind ?_ fun rest _ =>
    ⟨(typed rest).spaces, (typed rest).noName rfl⟩
  refine (types_parses writable.types).bind ?_ fun rest _ => ranged rest
  refine starred_parses writable.length ?_ fun rest _ => last rest
  exact (properties_parses writable.properties).bind closed fun rest _ => (ends rest).lacks rfl rfl

/-- The end of the arrow tells the direction, together with its beginning. -/
theorem arrow_parses {body : Undirected} (direction : Direction) :
    Parses Spaced (do
        let right ← tryMark ['-', '>']
        unless right do expectChar '-'
        return body (← directionOf (direction == .incoming) right))
      [if direction = .outgoing then ['-', '>'] else ['-']] (body direction) := by
  have line : Parses (fun rest => ['-', '>'].isPrefixOf (dropBlanks rest) = false)
      (tryMark ['-', '>']) [] false := tryMark_misses _
  have blunt (rest : List Char) (spaces : Spaced rest) :
      ['-', '>'].isPrefixOf (dropBlanks (spaced [['-']] ++ rest)) = false := by
    rcases spaces with rfl | ⟨more, rfl⟩ <;> rfl
  cases direction with
  | outgoing =>
      have head : Parses (fun _ => True) (tryMark ['-', '>']) [['-', '>']] true :=
        tryMark_parses (.of_head rfl (by decide) ['>'])
      exact head.bind (.pure _) fun _ _ => trivial
  | incoming => exact line.look (.expect rfl (by decide) (.pure _)) blunt
  | both => exact line.look (.expect rfl (by decide) (.pure _)) blunt

theorem inside_eq_nil (empty : r.inside terse print = []) :
    r.name = none ∧ r.types = [] ∧ r.length = none ∧ r.properties = [] := by
  obtain ⟨name, types, properties, direction, length⟩ := r
  simp only [RelationshipPattern.inside, List.append_eq_nil_iff] at empty
  obtain ⟨noName, noTypes, noLength, noProperties⟩ := empty
  refine ⟨?_, ?_, ?_, ?_⟩
  · cases name with
    | none => rfl
    | some name => cases noName
  · cases types with
    | nil => rfl
    | cons first others => cases noTypes
  · cases length with
    | none => rfl
    | some range => cases noLength
  · cases properties with
    | nil => rfl
    | cons entry others => cases noProperties

theorem bracketed_parses (writable : r.Writable print) {next : Undirected → Parser β} {b : β}
    (two : Parses follows (next fun direction =>
      ⟨r.name, r.types, r.properties, direction, r.length⟩) tokens b)
    (arrow : ∀ rest, follows rest → Lacks [] ['['] (spaced tokens ++ rest)) :
    Parses follows (tryChar '[' >>= fun bracket =>
        if bracket then relationshipBody >>= next
        else Pure.pure (fun direction => ⟨none, [], [], direction, none⟩) >>= next)
      (r.bracketed terse print ++ tokens) b := by
  unfold RelationshipPattern.bracketed
  split
  · next bare =>
      have empty := List.isEmpty_iff.mp ((Bool.and_eq_true _ _).mp bare).2
      obtain ⟨name, types, length, properties⟩ := inside_eq_nil empty
      rw [name, types, length, properties] at two
      exact .noMark two arrow
  · have body : Parses (fun _ => True) relationshipBody (r.inside terse print ++ [[']']])
        (fun direction => ⟨r.name, r.types, r.properties, direction, r.length⟩) :=
      relationshipBody_parses writable
    exact .mark rfl (by decide) (body.bind two fun _ _ => trivial)

theorem relationshipPattern_parses (writable : r.Writable print) :
    Parses Spaced relationshipPattern (r.tokens terse print) r := by
  have arrow (rest : List Char) : Lacks [] ['[']
      (spaced [if r.direction = .outgoing then ['-', '>'] else ['-']] ++ rest) := by
    split <;> rfl
  have opened : Parses Spaced (do
      let body ← if ← tryChar '[' then relationshipBody
        else pure fun direction => ⟨none, [], [], direction, none⟩
      let right ← tryMark ['-', '>']
      unless right do expectChar '-'
      return body (← directionOf (r.direction == .incoming) right))
      (r.bracketed terse print ++ [if r.direction = .outgoing then ['-', '>'] else ['-']]) r :=
    bracketed_parses writable (arrow_parses r.direction) fun rest _ => arrow rest
  unfold RelationshipPattern.tokens
  cases same : r.direction with
  | incoming =>
      rw [same] at opened
      have head : Parses (fun _ => True) (tryMark ['<', '-']) [['<', '-']] true :=
        tryMark_parses (.of_head rfl (by decide) ['-'])
      exact head.bind opened fun _ _ => trivial
  | outgoing =>
      rw [same] at opened
      have line : Parses (Lacks [] ['<']) (tryMark ['<', '-']) [] false :=
        tryMark_lacking ['-'] (List.mem_singleton_self '<')
      exact line.look (.expect rfl (by decide) opened) fun _ _ => rfl
  | both =>
      rw [same] at opened
      have line : Parses (Lacks [] ['<']) (tryMark ['<', '-']) [] false :=
        tryMark_lacking ['-'] (List.mem_singleton_self '<')
      exact line.look (.expect rfl (by decide) opened) fun _ _ => rfl

end Relationships

section Paths

variable {terse : Bool}

/-- What begins an arrow. -/
def isArrow (c : Char) : Bool := c = '-' || c = '<'

def atArrow : Parser Bool := do return (← peek).any isArrow

theorem chainLink?_eq : chainLink? = (do
    skipBlanks
    if ← atArrow then
      let relationship ← relationshipPattern
      return some (relationship, ← nodePattern)
    return none) := rfl

theorem atArrow_takes (text : List Char) : Takes atArrow text (text.head?.any isArrow) text :=
  fun _ => rfl

theorem arrow_first (r : RelationshipPattern) : ∃ c more others,
    r.tokens terse print = (c :: more) :: others ∧ isArrow c = true ∧ Visible (c :: more) := by
  unfold RelationshipPattern.tokens
  split
  · exact ⟨'<', ['-'], _, rfl, rfl, .of_head rfl (by decide) _⟩
  · exact ⟨'-', [], _, rfl, rfl, .of_head rfl (by decide) _⟩

theorem chainLink?_parses {link : RelationshipPattern × NodePattern}
    (writable : link.1.Writable print ∧ link.2.Writable print) :
    Parses follows chainLink? (link.1.tokens terse print ++ link.2.tokens print) (some link) := by
  have both : Parses follows (do
      let relationship ← relationshipPattern
      return some (relationship, ← nodePattern))
      (link.1.tokens terse print ++ link.2.tokens print) (some link) :=
    (relationshipPattern_parses writable.1).bind ((nodePattern_parses writable.2).last rfl)
      fun rest _ => .inr ⟨_, rfl⟩
  rw [chainLink?_eq]
  refine ahead_parses true atArrow_takes (fun rest _ => ?_) both
  obtain ⟨c, more, others, first, arrow, visible⟩ := arrow_first link.1
  rw [first, List.cons_append, (Skipped.refl _).first visible]
  exact arrow

theorem chainLink?_misses : Parses (Lacks [] ['-', '<']) chainLink? [] none := by
  rw [chainLink?_eq]
  refine ahead_parses false atArrow_takes (fun rest absent => ?_) (.pure none)
  rw [Option.any_eq_false]
  intro c here
  have minus : c ≠ '-' := fun same => absent.mark (by decide) (same ▸ here)
  have less : c ≠ '<' := fun same => absent.mark (by decide) (same ▸ here)
  simp [isArrow, minus, less]

theorem pathPattern_parses {p : PathPattern} (writable : p.Writable print) :
    Parses (Lacks [] ['-', '<']) pathPattern (p.tokens terse print) p := by
  have each : List.Forall₂ (fun part a => Parses (fun _ => True) chainLink? part (some a))
      (p.chain.map fun link => link.1.tokens terse print ++ link.2.tokens print) p.chain := by
    rw [List.forall₂_map_left_iff, List.forall₂_same]
    exact fun link member => chainLink?_parses (writable.chain link member)
  have links : Parses (Lacks [] ['-', '<']) (repeated chainLink?)
      (p.chain.map fun link => link.1.tokens terse print ++ link.2.tokens print).flatten
      p.chain := by
    refine repeated_parses ?_ each chainLink?_misses (fun _ _ => trivial) fun _ _ _ _ => trivial
    intro part member
    obtain ⟨link, _, rfl⟩ := List.mem_map.mp member
    obtain ⟨c, more, others, first, _, visible⟩ := arrow_first link.1
    rw [first]
    exact ⟨_, _, rfl, visible⟩
  have start : Parses (fun _ => True) nodePattern (p.start.tokens print) p.start :=
    nodePattern_parses writable.start
  exact start.bind (links.last rfl) fun _ _ => trivial

theorem patterns_parses {patterns : List PathPattern} (some_ : patterns ≠ [])
    (writable : ∀ p ∈ patterns, p.Writable print) :
    Parses (EndsList (Lacks [] ['-', '<'])) Cypher.patterns (patternTokens terse print patterns)
      patterns := by
  have each : List.Forall₂ (Parses (Lacks [] ['-', '<']) pathPattern)
      (patterns.map (PathPattern.tokens terse print)) patterns := by
    rw [List.forall₂_map_left_iff, List.forall₂_same]
    exact fun p member => pathPattern_parses (writable p member)
  refine separated_parses (fun rest => rfl) each ?_
  cases patterns with
  | nil => exact absurd rfl some_
  | cons p others =>
      rw [List.map_cons]
      exact begins_commas ⟨_, _, rfl, .of_head rfl (by decide) _⟩ _

end Paths

end PropertyGraph.Cypher
