import PropertyGraph.Proofs.Cypher.PatternTokens

/-!
Clauses are read back from their tokens. A clause ends where the keyword of a later one stands, or
the text ends.
-/

namespace PropertyGraph.Cypher

variable {α β : Type} {tokens : List Token} {rest : List Char} {terse : Bool}
  {print : Expression → List Token} {keywords later : List String}

/-- No tokens, or one of these keywords first. -/
def StartsWord (keywords : List String) (tokens : List Token) : Prop :=
  tokens = [] ∨ ∃ keyword ∈ keywords, isCapitals keyword = true ∧
    ∃ more, tokens = keyword.toList :: more

theorem StartsWord.clause {keyword : String} (capitals : isCapitals keyword = true)
    (tokens : α → List Token) (found : Option α) :
    StartsWord [keyword] (clauseTokens keyword tokens found) := by
  cases found with
  | none => exact .inl rfl
  | some a => exact .inr ⟨keyword, List.mem_singleton_self _, capitals, tokens a, rfl⟩

theorem StartsWord.append {others : List Token} (starts : StartsWord keywords tokens)
    (startsToo : StartsWord later others) : StartsWord (keywords ++ later) (tokens ++ others) := by
  rcases starts with rfl | ⟨keyword, member, capitals, more, rfl⟩
  · rcases startsToo with rfl | ⟨keyword, member, capitals, more, rfl⟩
    · exact .inl rfl
    · exact .inr ⟨keyword, List.mem_append_right keywords member, capitals, more, rfl⟩
  · exact .inr ⟨keyword, List.mem_append_left later member, capitals, more ++ others, rfl⟩

theorem AtWord.before (stands : AtWord later rest) (starts : StartsWord keywords tokens) :
    AtWord (keywords ++ later) (spaced tokens ++ rest) := by
  rcases starts with rfl | ⟨keyword, member, capitals, more, rfl⟩
  · exact stands.mono (List.subset_append_right keywords later)
  · exact .of_token capitals (List.mem_append_left later member) more stands.spaces

theorem AtWord.append {others : List Token} (stands : AtWord later (spaced others ++ rest))
    (starts : StartsWord keywords tokens) :
    AtWord (keywords ++ later) (spaced (tokens ++ others) ++ rest) := by
  rw [spaced_append, List.append_assoc]
  exact stands.before starts

theorem AtWord.endsList {inner : List Char → Prop} (stands : AtWord keywords rest)
    (fits : inner rest) : EndsList inner rest := by
  have comma : Lacks [] [','] rest := stands.lacks nofun rfl
  exact ⟨fits, comma.mark (List.mem_singleton_self ',')⟩

theorem clause_parses {keyword : String} {item : Parser α} {tokens : α → List Token}
    {found : Option α} (capitals : isCapitals keyword = true) (apart : keyword ∉ later)
    (each : ∀ a ∈ found, Parses (AtWord later) item (tokens a) a) :
    Parses (AtWord later) (keyword? keyword item) (clauseTokens keyword tokens found) found := by
  cases found with
  | none =>
      refine keyword?_misses.weaken fun rest stands => stands.lacks ?_ rfl
      exact List.forall_mem_singleton.mpr ⟨capitals, apart⟩
  | some a => exact keyword?_parses capitals (each a rfl) fun rest stands => stands.spaces

def clauseWords : List String := ["MATCH", "CREATE", "SET", "DETACH", "DELETE", "RETURN"]

theorem matchClause?_parses {m : MatchClause} (writable : m.Writable print) :
    Parses (AtWord clauseWords) matchClause? (m.tokens terse print) (some m) := by
  have condition : Parses (AtWord clauseWords) (keyword? "WHERE" expression)
      (clauseTokens "WHERE" print m.condition) m.condition :=
    clause_parses (by decide) (by decide) fun e member =>
      (writable.condition e member).parses.weaken fun rest stands => stands.stops (by decide)
  refine keyword?_parses (by decide) ?_ fun rest stands => stands.spaces
  refine (patterns_parses writable.some_ writable.patterns).bind (condition.last rfl)
    fun rest stands => ?_
  have behind : AtWord ("WHERE" :: clauseWords)
      (spaced (clauseTokens "WHERE" print m.condition) ++ rest) :=
    stands.before (.clause (by decide) _ _)
  exact behind.endsList (behind.lacks nofun rfl)

theorem matches_parses {clauses : List MatchClause} (writable : ∀ m ∈ clauses, m.Writable print) :
    Parses (AtWord ["CREATE", "SET", "DETACH", "DELETE", "RETURN"]) (repeated matchClause?)
      (clauses.map (MatchClause.tokens terse print)).flatten clauses := by
  have each : List.Forall₂ (fun part a => Parses (AtWord clauseWords) matchClause? part (some a))
      (clauses.map (MatchClause.tokens terse print)) clauses := by
    rw [List.forall₂_map_left_iff, List.forall₂_same]
    exact fun m member => matchClause?_parses (writable m member)
  have missing : Parses (AtWord ["CREATE", "SET", "DETACH", "DELETE", "RETURN"]) matchClause? []
      none := by
    refine keyword?_misses.weaken fun rest stands => stands.lacks ?_ rfl
    decide
  refine repeated_parses ?_ each missing (fun rest stands => stands.mono (by decide)) ?_
  · intro part member
    obtain ⟨m, _, rfl⟩ := List.mem_map.mp member
    exact ⟨_, _, rfl, .of_head rfl (by decide) _⟩
  · intro part member rest stands
    obtain ⟨m, _, rfl⟩ := List.mem_map.mp member
    exact .of_token (by decide) (by decide) _ stands.spaces

theorem items_parses {item : Parser α} {inner : List Char → Prop} {write : α → List Token}
    {items : List α} (comma : ∀ rest, inner (' ' :: ',' :: rest))
    (some_ : items ≠ []) (each : ∀ a ∈ items, Parses inner item (write a) a)
    (begins : ∀ a ∈ items, Begins (write a)) :
    Parses (EndsList inner) (separated item) (commas (items.map write)) items := by
  refine separated_parses comma ?_ ?_
  · rw [List.forall₂_map_left_iff, List.forall₂_same]
    exact each
  · cases items with
    | nil => exact absurd rfl some_
    | cons first others => exact begins_commas (begins first List.mem_cons_self) _

theorem create_parses {created : List PathPattern} (writable : ∀ p ∈ created, p.Writable print) :
    Parses (AtWord ["SET", "DETACH", "DELETE", "RETURN"]) (keyword? "CREATE" Cypher.patterns)
      (clauseTokens "CREATE" (patternTokens terse print) (nonempty? created))
      (nonempty? created) := by
  refine clause_parses (by decide) (by decide) fun patterns member => ?_
  obtain ⟨rfl, some_⟩ := of_mem_nonempty? member
  refine (patterns_parses some_ writable).weaken fun rest stands => ?_
  exact stands.endsList (stands.lacks nofun rfl)

theorem setItem_parses {item : SetItem} (writable : item.Writable print) :
    Parses (Stops 0) setItem (item.tokens print) item := by
  have value : Parses (Stops 0) (do return ⟨item.owner, item.key, ← expression⟩)
      (print item.value) item := writable.value.parses.last rfl
  refine (name_parses writable.owner).bind ?_ fun rest _ => .inr ⟨_, rfl⟩
  refine .expect rfl (by decide) ?_
  refine (name_parses writable.key).bind ?_ fun rest _ => .inr ⟨_, rfl⟩
  exact .expect rfl (by decide) value

theorem set_parses {items : List SetItem} (writable : ∀ item ∈ items, item.Writable print) :
    Parses (AtWord ["DETACH", "DELETE", "RETURN"]) (keyword? "SET" (separated setItem))
      (clauseTokens "SET" (fun items => commas (items.map (SetItem.tokens print)))
        (nonempty? items)) (nonempty? items) := by
  refine clause_parses (by decide) (by decide) fun found member => ?_
  obtain ⟨rfl, some_⟩ := of_mem_nonempty? member
  have each : Parses (EndsList (Stops 0)) (separated setItem)
      (commas (found.map (SetItem.tokens print))) found :=
    items_parses (fun rest => .of_mark (by decide) 0 rest) some_
      (fun item member => setItem_parses (writable item member))
      fun item member => ⟨_, _, rfl, .of_name (writable item member).owner⟩
  exact each.weaken fun rest stands => stands.endsList (stands.stops (by decide))

theorem delete_parses {delete : Option DeleteClause} (writable : ∀ d ∈ delete, d.Writable) :
    Parses (AtWord ["RETURN"]) deleteClause? (deleteTokens delete) delete := by
  cases delete with
  | none =>
      have missing : Parses (AtWord ["RETURN"])
          (keyword? "DELETE" do return DeleteClause.mk false (← separated name)) [] none :=
        keyword?_misses.weaken fun rest stands => stands.lacks (by decide) rfl
      exact .noKeyword missing fun rest stands => stands.lacks (by decide) rfl
  | some d =>
      obtain ⟨detach, names⟩ := d
      obtain ⟨some_, bare⟩ := writable _ rfl
      have named : Parses (AtWord ["RETURN"]) (separated name)
          (commas (names.map fun name => [name.toList])) names := by
        have each : Parses (EndsList Spaced) (separated name)
            (commas (names.map fun name => [name.toList])) names :=
          items_parses (fun rest => .inr ⟨_, rfl⟩) some_
            (fun n member => name_parses (bare n member))
            fun n member => ⟨_, _, rfl, .of_name (bare n member)⟩
        exact each.weaken fun rest stands => stands.endsList stands.spaces
      cases detach with
      | true =>
          refine .keyword (by decide) ?_ fun rest stands => stands.spaces
          refine .expectKeyword (by decide) ?_ fun rest stands => stands.spaces
          exact named.last rfl
      | false =>
          have found : Parses (AtWord ["RETURN"])
              (keyword? "DELETE" do return DeleteClause.mk false (← separated name))
              ("DELETE".toList :: commas (names.map fun name => [name.toList]))
              (some (DeleteClause.mk false names)) :=
            keyword?_parses (by decide) (named.last rfl) fun rest stands => stands.spaces
          refine .noKeyword found fun rest stands => ?_
          have here : AtWord ["DELETE"] (spaced ("DELETE".toList ::
              commas (names.map fun name => [name.toList])) ++ rest) :=
            .of_token (by decide) (by decide) _ stands.spaces
          exact here.lacks (by decide) rfl

/-- What stands behind an item of RETURN or of ORDER BY: a comma, or a keyword. -/
def ItemEnd (keywords : List String) (rest : List Char) : Prop :=
  AtMark [','] rest ∨ AtWord keywords rest

namespace ItemEnd

variable {words : List String}

theorem spaces (ends : ItemEnd keywords rest) : Spaced rest := by
  rcases ends with comma | stands
  · exact comma.spaces
  · exact stands.spaces

theorem clearStop (ends : ItemEnd keywords rest)
    (others : ∀ word ∈ fromLevel 0 continuingWords, word ∉ keywords) : ClearStop rest := by
  rcases ends with comma | stands
  · obtain ⟨c, member, more, rfl⟩ := comma
    cases List.mem_singleton.mp member
    exact ⟨.of_mark (by decide) 0 more, .of_mark rfl (by decide) more⟩
  · exact ⟨stands.stops others, stands.clear⟩

theorem lacks (ends : ItemEnd keywords rest)
    (others : ∀ word ∈ words, isCapitals word = true ∧ word ∉ keywords) : Lacks words [] rest := by
  rcases ends with comma | stands
  · obtain ⟨c, member, more, rfl⟩ := comma
    cases List.mem_singleton.mp member
    refine .intro (fun word found => ?_) nofun
    obtain ⟨_, k, letters, same, _⟩ := isCapitals_cases (others word found).1
    have shown : dropBlanks (' ' :: ',' :: more) = ',' :: more := rfl
    rw [shown, same, afterKeyword?, if_neg]
    rintro rfl
    have capital := isBareName_of_isCapitals (others word found).1
    rw [isBareName, same] at capital
    cases capital
  · exact stands.lacks others rfl

end ItemEnd

theorem returnItem_parses {item : ReturnItem} (writable : item.Writable print) :
    Parses (ItemEnd ["ORDER", "SKIP", "LIMIT"]) returnItem (item.tokens print) item := by
  obtain ⟨e, alias_, text⟩ := item
  obtain ⟨back, same, bare⟩ := writable
  obtain rfl : text = textOf (print e) := same
  have named : Parses (ItemEnd ["ORDER", "SKIP", "LIMIT"]) (do
      return ReturnItem.mk e (← keyword? "AS" name) (textOf (print e)))
      (clauseTokens "AS" (fun name => [name.toList]) alias_) ⟨e, alias_, textOf (print e)⟩ := by
    have alias? : Parses (ItemEnd ["ORDER", "SKIP", "LIMIT"]) (keyword? "AS" name)
        (clauseTokens "AS" (fun name => [name.toList]) alias_) alias_ := by
      cases alias_ with
      | none => exact keyword?_misses.weaken fun rest ends => ends.lacks (by decide)
      | some name =>
          have read : Parses (ItemEnd ["ORDER", "SKIP", "LIMIT"]) Cypher.name [name.toList] name :=
            (name_parses (bare name rfl)).weaken fun rest ends => ends.spaces
          exact keyword?_parses (by decide) read fun rest ends => ends.spaces
    exact alias?.last rfl
  refine (withText_parses back).bind named fun rest ends => ?_
  cases alias_ with
  | none => exact ends.clearStop (by decide)
  | some name =>
      have here : AtWord ["AS"] (spaced ["AS".toList, name.toList] ++ rest) :=
        .of_token (by decide) (by decide) _ ends.spaces
      exact ⟨here.stops (by decide), here.clear⟩

theorem sortsDescending_parses (descending : Bool) :
    Parses (ItemEnd ["SKIP", "LIMIT"]) sortsDescending
      (if descending then ["DESC".toList] else if terse then [] else ["ASC".toList])
      descending := by
  have here {word : String} (capitals : isCapitals word = true) (rest : List Char)
      (spaces : Spaced rest) : AtWord [word] (spaced [word.toList] ++ rest) :=
    .of_token capitals (List.mem_singleton_self word) [] spaces
  cases descending with
  | true =>
      refine .noKeyword ?_ fun rest ends =>
        (here (by decide) rest ends.spaces).lacks (by decide) rfl
      exact .keyword (by decide) (.pure true) fun rest ends => ends.spaces
  | false =>
      cases terse with
      | true =>
          refine .noKeyword ?_ fun rest ends => ends.lacks (by decide)
          refine .noKeyword ?_ fun rest ends => ends.lacks (by decide)
          refine .noKeyword ?_ fun rest ends => ends.lacks (by decide)
          exact .noKeyword (.pure false) fun rest ends => ends.lacks (by decide)
      | false =>
          have asc (rest : List Char) (spaces : Spaced rest) : AtWord ["ASC"]
              (spaced ["ASC".toList] ++ rest) := here (by decide) rest spaces
          refine .noKeyword ?_ fun rest ends => (asc rest ends.spaces).lacks (by decide) rfl
          refine .noKeyword ?_ fun rest ends => (asc rest ends.spaces).lacks (by decide) rfl
          refine .noKeyword ?_ fun rest ends => (asc rest ends.spaces).lacks (by decide) rfl
          exact .keyword (by decide) (.pure false) fun rest ends => ends.spaces

theorem sortItem_parses {item : SortItem} (writable : item.Writable print) :
    Parses (ItemEnd ["SKIP", "LIMIT"]) sortItem (item.tokens terse print) item := by
  obtain ⟨e, descending, text⟩ := item
  obtain ⟨back, same⟩ := writable
  obtain rfl : text = textOf (print e) := same
  have direction : Parses (ItemEnd ["SKIP", "LIMIT"]) (do
      return SortItem.mk e (← sortsDescending) (textOf (print e)))
      (if descending then ["DESC".toList] else if terse then [] else ["ASC".toList])
      ⟨e, descending, textOf (print e)⟩ := (sortsDescending_parses descending).last rfl
  refine (withText_parses back).bind direction fun rest ends => ?_
  have here {word : String} (capitals : isCapitals word = true)
      (member : word ∈ ["ASC", "DESC"]) : ClearStop (spaced [word.toList] ++ rest) := by
    have stands : AtWord ["ASC", "DESC"] (spaced [word.toList] ++ rest) :=
      .of_token capitals member [] ends.spaces
    exact ⟨stands.stops (by decide), stands.clear⟩
  cases descending with
  | true => exact here (by decide) (by decide)
  | false =>
      cases terse with
      | true => exact ends.clearStop (by decide)
      | false => exact here (by decide) (by decide)

theorem ofInt_toNat {n : Int64} (positive : 0 ≤ n.toInt) : Int64.ofInt n.toInt.toNat = n := by
  rw [Int.toNat_of_nonneg positive, Int64.ofInt_toInt]

theorem rowCount_parses (clause : String) {n : Int64} (positive : 0 ≤ n.toInt) :
    Parses (Stops 8) (rowCount clause) [digitChars n.toInt.toNat] n := by
  have high := n.toInt_lt
  have fits : n.toInt.toNat < twoTo 63 := by
    have power : twoTo 63 = 2 ^ 63 := rfl
    omega
  have number := (ReadsAt.number fits : ReadsAt expression 8 _ _).parses
  rw [ofInt_toNat positive] at number
  have kept : Parses (Stops 8) (do
      if 0 ≤ n.toInt then return n else throw (.expectedCount clause (.literal (.int n)))) []
      n := by
    rw [if_pos positive]
    exact .pure n
  have counted : Parses (Stops 8) (rowCount clause) ([digitChars n.toInt.toNat] ++ []) n := by
    refine number.bind ?_ fun rest stops => stops
    exact kept
  exact counted

theorem order_parses {items : List SortItem} (writable : ∀ item ∈ items, item.Writable print) :
    Parses (AtWord ["SKIP", "LIMIT"]) (keyword? "ORDER" do
        expectKeyword "BY"
        separated sortItem)
      (clauseTokens "ORDER" (fun items => "BY".toList ::
        commas (items.map (SortItem.tokens terse print))) (nonempty? items)) (nonempty? items) := by
  refine clause_parses (by decide) (by decide) fun found member => ?_
  obtain ⟨rfl, some_⟩ := of_mem_nonempty? member
  have each : Parses (EndsList (ItemEnd ["SKIP", "LIMIT"])) (separated sortItem)
      (commas (found.map (SortItem.tokens terse print))) found :=
    items_parses (fun rest => .inl ⟨',', by decide, rest, rfl⟩) some_
      (fun item member => sortItem_parses (writable item member))
      fun item member => (writable item member).expression.heads.begins.append _
  exact .expectKeyword (by decide) (each.weaken fun rest stands => stands.endsList (.inr stands))
    fun rest stands => stands.spaces

theorem rowCount?_parses {clause : String} (capitals : isCapitals clause = true)
    (apart : clause ∉ later) (outside : ∀ word ∈ fromLevel 0 continuingWords, word ∉ later)
    {found : Option Int64} (positive : ∀ n ∈ found, 0 ≤ n.toInt) :
    Parses (AtWord later) (keyword? clause (rowCount clause))
      (clauseTokens clause (fun n => [digitChars n.toInt.toNat]) found) found :=
  clause_parses capitals apart fun n member => (rowCount_parses clause (positive n member)).weaken
    fun _ stands => (stands.stops outside).mono (by omega)

theorem returnItems_parses {items : List ReturnItem} (some_ : items ≠ [])
    (writable : ∀ item ∈ items, item.Writable print) :
    Parses (AtWord ["ORDER", "SKIP", "LIMIT"]) (separated returnItem)
      (commas (items.map (ReturnItem.tokens print))) items := by
  have each : Parses (EndsList (ItemEnd ["ORDER", "SKIP", "LIMIT"])) (separated returnItem)
      (commas (items.map (ReturnItem.tokens print))) items :=
    items_parses (fun rest => .inl ⟨',', by decide, rest, rfl⟩) some_
      (fun item member => returnItem_parses (writable item member))
      fun item member => (writable item member).expression.heads.begins.append _
  exact each.weaken fun rest stands => stands.endsList (.inr stands)

/-- No item of RETURN begins with the keyword that may stand in front of them all. -/
theorem returnItems_lack {items : List ReturnItem} (some_ : items ≠ [])
    (writable : ∀ item ∈ items, item.Writable print) (others : List Token) (spaces : Spaced rest) :
    Lacks ["DISTINCT"] [] (spaced (commas (items.map (ReturnItem.tokens print)) ++ others) ++
      rest) := by
  obtain ⟨first, more, rfl⟩ := List.exists_cons_of_ne_nil some_
  have heads : Heads 0 (first.tokens print) :=
    (writable first List.mem_cons_self).expression.heads.append _
  rw [List.map_cons, spaced_append, List.append_assoc]
  exact commas_lacks heads _ (by decide) (List.nil_subset _) (spaces.tokens others)

theorem returnClause_parses {r : ReturnClause} (writable : r.Writable print) :
    Parses (AtWord []) returnClause (r.tokens terse print) r := by
  have fromSkip (rest : List Char) (stands : AtWord [] rest) : AtWord ["SKIP", "LIMIT"]
      (spaced (clauseTokens "SKIP" (fun n => [digitChars n.toInt.toNat]) r.skip ++
        clauseTokens "LIMIT" (fun n => [digitChars n.toInt.toNat]) r.limit) ++ rest) :=
    (stands.before (.clause (by decide) _ _)).append (.clause (by decide) _ _)
  have listed : Parses (AtWord []) (do
      let items ← separated returnItem
      let order ← keyword? "ORDER" do
        expectKeyword "BY"
        separated sortItem
      let skip ← keyword? "SKIP" (rowCount "SKIP")
      let limit ← keyword? "LIMIT" (rowCount "LIMIT")
      return ReturnClause.mk r.distinct items (order.getD []) skip limit)
      (commas (r.items.map (ReturnItem.tokens print)) ++
        (clauseTokens "ORDER" (fun items => "BY".toList ::
            commas (items.map (SortItem.tokens terse print))) (nonempty? r.order) ++
          (clauseTokens "SKIP" (fun n => [digitChars n.toInt.toNat]) r.skip ++
            clauseTokens "LIMIT" (fun n => [digitChars n.toInt.toNat]) r.limit))) r := by
    refine (returnItems_parses writable.some_ writable.items).bind ?_ fun rest stands =>
      (fromSkip rest stands).append (.clause (by decide) _ _)
    refine (order_parses writable.order).bind ?_ fun rest stands => fromSkip rest stands
    refine (rowCount?_parses (by decide) (by decide) (by decide) writable.skip).bind ?_
      fun rest stands => stands.before (.clause (by decide) _ _)
    simp only [getD_nonempty?]
    exact (rowCount?_parses (by decide) (by decide) (by decide) writable.limit).last rfl
  unfold ReturnClause.tokens
  cases same : r.distinct with
  | true =>
      rw [same] at listed
      exact .keyword (by decide) listed fun rest stands => stands.spaces
  | false =>
      rw [same] at listed
      exact .noKeyword listed fun rest stands =>
        returnItems_lack writable.some_ writable.items _ stands.spaces

theorem starts_delete (delete : Option DeleteClause) :
    StartsWord ["DETACH", "DELETE"] (deleteTokens delete) := by
  cases delete with
  | none => exact .inl rfl
  | some d =>
      obtain ⟨detach, names⟩ := d
      cases detach with
      | true => exact .inr ⟨"DETACH", by decide, by decide, _, rfl⟩
      | false => exact .inr ⟨"DELETE", by decide, by decide, _, rfl⟩

theorem checked_parses {follows : List Char → Prop} {q : Query}
    (some_ : Query.isEmpty q = false) : Parses follows (do
      if Query.isEmpty q then throw (.expectedClause (← snippet))
      return q) [] q := by
  rw [some_]
  exact .pure q

theorem query_parses {q : Query} (writable : q.Writable print) :
    Parses (AtWord []) query (q.tokens terse print) q := by
  have returned : Parses (AtWord []) (keyword? "RETURN" returnClause)
      (clauseTokens "RETURN" (ReturnClause.tokens terse print) q.return_) q.return_ :=
    clause_parses (by decide) (by decide) fun r member =>
      returnClause_parses (writable.return_ r member)
  have fromReturn (rest : List Char) (ends : AtWord [] rest) : AtWord ["RETURN"]
      (spaced (clauseTokens "RETURN" (ReturnClause.tokens terse print) q.return_) ++ rest) :=
    ends.before (.clause (by decide) _ _)
  have fromDelete (rest : List Char) (ends : AtWord [] rest) :
      AtWord ["DETACH", "DELETE", "RETURN"] (spaced (deleteTokens q.delete ++
        clauseTokens "RETURN" (ReturnClause.tokens terse print) q.return_) ++ rest) :=
    (fromReturn rest ends).append (starts_delete _)
  have fromSet (rest : List Char) (ends : AtWord [] rest) :
      AtWord ["SET", "DETACH", "DELETE", "RETURN"] (spaced (clauseTokens "SET"
        (fun items => commas (items.map (SetItem.tokens print))) (nonempty? q.set) ++
          (deleteTokens q.delete ++
            clauseTokens "RETURN" (ReturnClause.tokens terse print) q.return_)) ++ rest) :=
    (fromDelete rest ends).append (.clause (by decide) _ _)
  refine (matches_parses writable.matches_).bind ?_ fun rest ends =>
    (fromSet rest ends).append (.clause (by decide) _ _)
  refine (create_parses writable.create).bind ?_ fromSet
  refine (set_parses writable.set).bind ?_ fromDelete
  refine (delete_parses writable.delete).bind ?_ fromReturn
  simp only [getD_nonempty?]
  rw [← List.append_nil (clauseTokens _ _ _)]
  exact returned.bind (checked_parses writable.some_) fun rest ends => ends

end PropertyGraph.Cypher
