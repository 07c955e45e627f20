import PropertyGraph.Proofs.Cypher.Readings

/-!
How statements begin. Blanks in front of a query make no difference to it, and EXPLAIN stands in
front of the query that is read without it.
-/

namespace PropertyGraph.Cypher

variable {α : Type}

/-- An item that is read takes some of the text. -/
def Consumes (item? : Parser (Option α)) : Prop :=
  ∀ source text a rest, (item?.run source).run text = .ok (some a, rest) → rest.length < text.length

theorem tryKeyword_eq (word : String) (source : Source) (text : List Char) :
    ((tryKeyword word).run source).run text =
      match afterKeyword? word.toList (dropBlanks text) with
      | some rest => .ok (true, rest)
      | none => .ok (false, dropBlanks text) := by
  have whole : ((tryKeyword word).run source).run text =
      (((match afterKeyword? word.toList (dropBlanks text) with
        | some rest => do
            set rest
            return true
        | none => return false : Parser Bool).run source).run (dropBlanks text)) := rfl
  rw [whole]
  split <;> rfl

theorem keyword_run {word : String} {item : Parser α} (source : Source) (text : List Char) :
    ((keyword? word item).run source).run text =
      match afterKeyword? word.toList (dropBlanks text) with
      | some rest => ((some <$> item).run source).run rest
      | none => .ok (none, dropBlanks text) := by
  have whole : ((keyword? word item).run source).run text =
      ((tryKeyword word).run source).run text >>= fun found =>
        (((if found.1 then return some (← item) else return none : Parser (Option α))).run
          source).run found.2 := rfl
  rw [whole, tryKeyword_eq, map_eq_pure_bind]
  split <;> rfl

theorem keyword_consumes {word : String} {item : Parser α} {R : α → α → Prop}
    (twin : ∀ parameters, Twin parameters parameters R item item)
    (nonempty : word.toList ≠ []) : Consumes (keyword? word item) := by
  intro source text a rest read
  rw [keyword_run] at read
  split at read
  · next middle found =>
      have shorter := length_afterKeyword found
      have some_ : Twin source.parameters source.parameters (Option.Rel R) (some <$> item)
          (some <$> item) := (twin _).map fun _ _ related => .some related
      have short := some_.ok_length read
      have blanks := length_dropBlanks text
      have letters := List.length_pos_of_ne_nil nonempty
      omega
  · cases read

section Fuel

variable {item? : Parser (Option α)} (source : Source) (text : List Char)

theorem repeatedFrom_succ (fuel : Nat) : repeatedFrom item? (fuel + 1) = (do
    match ← item? with
    | some first => return first :: (← repeatedFrom item? fuel)
    | none => return []) := rfl

/-- Once there is fuel for every character, more makes no difference. -/
theorem repeatedFrom_fuel (consumes : Consumes item?) {fuel other : Nat}
    (enough : text.length < fuel) (enoughToo : text.length < other) :
    ((repeatedFrom item? fuel).run source).run text =
      ((repeatedFrom item? other).run source).run text := by
  induction fuel generalizing text other with
  | zero => omega
  | succ fuel ih =>
      obtain ⟨other, rfl⟩ : ∃ n, other = n + 1 := ⟨other - 1, by omega⟩
      rw [repeatedFrom_succ, repeatedFrom_succ, Parser.bind_run, Parser.bind_run]
      cases read : (item?.run source).run text with
      | error fault => rfl
      | ok found =>
          obtain ⟨_ | first, rest⟩ := found
          · rfl
          · have shorter := consumes source text first rest read
            have more : rest.length < other := by omega
            have same := ih rest (by omega) more
            exact congrArg (· >>= fun others => .ok (first :: others.1, others.2)) same

theorem repeated_blanks (consumes : Consumes item?)
    (skips : (item?.run source).run (dropBlanks text) = (item?.run source).run text) :
    ((repeated item?).run source).run (dropBlanks text) =
      ((repeated item?).run source).run text := by
  have shorter := length_dropBlanks text
  calc ((repeatedFrom item? ((dropBlanks text).length + 1)).run source).run (dropBlanks text)
      = ((repeatedFrom item? (text.length + 1)).run source).run (dropBlanks text) :=
        repeatedFrom_fuel source _ consumes (by omega) (by omega)
    _ = ((repeatedFrom item? (text.length + 1)).run source).run text := by
        rw [repeatedFrom_succ, Parser.bind_run, Parser.bind_run, skips]

end Fuel

theorem matchClause?_consumes : Consumes matchClause? :=
  keyword_consumes (fun parameters => matchBody_twin (.eq parameters)) (by decide)

theorem matchClause?_blanks (source : Source) (text : List Char) :
    (matchClause?.run source).run (dropBlanks text) = (matchClause?.run source).run text := by
  have whole : matchClause? = keyword? "MATCH" matchBody := rfl
  rw [whole, keyword_run, keyword_run, dropBlanks_dropBlanks]

theorem query_blanks (source : Source) (text : List Char) :
    (query.run source).run (dropBlanks text) = (query.run source).run text := by
  rw [query_eq, Parser.bind_run, Parser.bind_run,
    repeated_blanks source text matchClause?_consumes (matchClause?_blanks source text)]

/-- What is read behind EXPLAIN, or without it. -/
def queryAlone : Parser Query := do
  let query ← query
  let _ ← tryChar ';'
  skipBlanks
  unless (← get).isEmpty do throw (.unexpectedInput (← position) (← snippet))
  return query

theorem statement_eq :
    statement = tryKeyword "EXPLAIN" >>= fun explain => Statement.mk explain <$> queryAlone := by
  simp only [statement, queryAlone, map_eq_pure_bind, bind_assoc]
  congr 1
  funext explain
  congr 1
  funext q
  congr 1
  funext _
  congr 1
  funext _
  congr 1
  funext rest
  split <;> simp

theorem queryAlone_twin {before after : Properties} {R : Expression → Expression → Prop}
    (mirrors : Mirrors before after R) (counts : ∀ n e e', R e e' →
      (e = .literal (.int n) ↔ e' = .literal (.int n))) :
    Twin before after (Query.Paired R) queryAlone queryAlone := by
  refine (query_twin mirrors counts).bind fun q q' paired => .after_ (tryChar_steady ';') fun _ =>
    .after_ skipBlanks_steady fun _ => .of_get fun rest => ?_
  split
  · exact .pure paired
  · exact .of_fails (.then_ fun _ => .then_ fun _ => .throw _)
      (.then_ fun _ => .then_ fun _ => .throw _)

theorem queryAlone_blanks (source : Source) (text : List Char) :
    (queryAlone.run source).run (dropBlanks text) = (queryAlone.run source).run text := by
  rw [queryAlone, Parser.bind_run, Parser.bind_run, query_blanks]

/-- Without EXPLAIN in front the query begins with the first word, and with it behind that. -/
theorem statement_run (source : Source) (text : List Char) :
    Prod.fst <$> (statement.run source).run text =
      match afterKeyword? "EXPLAIN".toList (dropBlanks text) with
      | some rest => (fun found => ⟨true, found.1⟩) <$> (queryAlone.run source).run rest
      | none => (fun found => ⟨false, found.1⟩) <$> (queryAlone.run source).run text := by
  have alone (explain : Bool) (rest : List Char) :
      Prod.fst <$> ((Statement.mk explain <$> queryAlone).run source).run rest =
        (fun found => ⟨explain, found.1⟩) <$> (queryAlone.run source).run rest := by
    rw [map_run, Functor.map_map]
  rw [statement_eq, Parser.bind_run, tryKeyword_eq]
  split
  · exact alone true _
  · exact (alone false _).trans (by rw [queryAlone_blanks])

end PropertyGraph.Cypher
