import PropertyGraph.Proofs.Cypher.ClauseTokens
import PropertyGraph.Proofs.Cypher.Precedence

/-!
Printing and parsing. Expressions are printed with the fewest parentheses, queries clause by clause,
and what is read from the text is what was printed.
-/

namespace PropertyGraph

open Cypher

section Statements

variable {q : Query} {tokens : List Token}

theorem statement_takes (begins : Begins tokens) (absent : Lacks ["EXPLAIN"] [] (spaced tokens))
    (parses : Parses (AtWord []) query tokens q) :
    Takes statement (textOf tokens).toList ⟨false, q⟩ [] := by
  have skipped : Skipped (spaced tokens) (textOf tokens).toList := by
    obtain ⟨token, more, rfl, visible⟩ := begins
    refine .inr ?_
    rw [textOf_eq, spaced_cons, List.tail_cons]
    exact (visible.dropBlanks_eq _).symm
  have unexplained := tryKeyword_absent
    ((absent.of_skipped skipped).word (List.mem_singleton_self _))
  have behind : Skipped (spaced tokens ++ []) (dropBlanks (textOf tokens).toList) := by
    rw [List.append_nil]
    exact .inr skipped.dropBlanks_eq
  obtain ⟨after, ends, taken⟩ := parses _ [] behind (.inl rfl)
  obtain rfl : after = [] := by rcases ends with rfl | rfl <;> rfl
  refine unexplained.bind (taken.bind ?_)
  exact fun source => rfl

theorem parse_of_run {s : Statement} {text : String} {parameters : Properties}
    (run : (statement.run ⟨Text.byteLength text.toList, parameters⟩).run text.toList =
      .ok (s, [])) : Statement.parse text parameters = .ok s := by
  have whole : Statement.parse text parameters =
      (statement.run ⟨Text.byteLength text.toList, parameters⟩).run text.toList >>=
        fun found => .ok found.1 := rfl
  rw [whole, run]
  rfl

theorem parse_of_takes {s : Statement} {text : String} (taken : Takes statement text.toList s [])
    (parameters : Properties) : Statement.parse text parameters = .ok s := parse_of_run (taken _)

end Statements

section Queries

variable {terse : Bool} {print : Expression → List Token} {q : Query}

theorem eq_none_of_clauseTokens {α : Type} {keyword : String} {tokens : α → List Token}
    {found : Option α} (empty : clauseTokens keyword tokens found = []) : found = none := by
  cases found with
  | none => rfl
  | some a => cases empty

theorem eq_nil_of_nonempty? {α : Type} {items : List α} (empty : nonempty? items = none) :
    items = [] := by
  cases items with
  | nil => rfl
  | cons first others => cases empty

theorem Query.tokens_ne_nil (some_ : Cypher.Query.isEmpty q = false) :
    q.tokens terse print ≠ [] := by
  intro empty
  simp only [Query.tokens, List.append_eq_nil_iff, List.flatten_eq_nil_iff] at empty
  obtain ⟨noMatch, noCreate, noSet, noDelete, noReturn⟩ := empty
  obtain ⟨matches_, create, set, delete, return_⟩ := q
  obtain rfl : matches_ = [] := by
    cases matches_ with
    | nil => rfl
    | cons m others => cases noMatch _ List.mem_cons_self
  obtain rfl := eq_nil_of_nonempty? (eq_none_of_clauseTokens noCreate)
  obtain rfl := eq_nil_of_nonempty? (eq_none_of_clauseTokens noSet)
  obtain rfl := eq_none_of_clauseTokens noReturn
  obtain rfl : delete = none := by
    rcases delete with _ | ⟨_ | _, names⟩
    · rfl
    · cases noDelete
    · cases noDelete
  cases some_

theorem Query.starts (q : Query) : StartsWord clauseWords (q.tokens terse print) := by
  have clauses : StartsWord ["MATCH"] (q.matches_.map (MatchClause.tokens terse print)).flatten := by
    cases q.matches_ with
    | nil => exact .inl rfl
    | cons m others => exact .inr ⟨"MATCH", by decide, by decide, _, rfl⟩
  have created := StartsWord.clause (by decide : isCapitals "CREATE" = true)
    (patternTokens terse print) (nonempty? q.create)
  have changed := StartsWord.clause (by decide : isCapitals "SET" = true)
    (fun items => commas (items.map (SetItem.tokens print))) (nonempty? q.set)
  have returned := StartsWord.clause (by decide : isCapitals "RETURN" = true)
    (ReturnClause.tokens terse print) q.return_
  exact clauses.append (created.append (changed.append ((starts_delete q.delete).append returned)))

theorem written_takes (writable : q.Writable print) :
    Takes statement (q.written terse print).toList ⟨false, q⟩ [] := by
  have starts : StartsWord clauseWords (q.tokens terse print) := q.starts
  have begins : Begins (q.tokens terse print) := by
    rcases starts with empty | ⟨keyword, _, capitals, more, same⟩
    · exact absurd empty (Query.tokens_ne_nil writable.some_)
    · exact ⟨_, _, same, (isCapitals_cases capitals).2⟩
  have nothing : AtWord [] [] := .inl rfl
  have stands : AtWord clauseWords (spaced (q.tokens terse print) ++ []) := nothing.before starts
  rw [List.append_nil] at stands
  exact statement_takes begins (stands.lacks (by decide) rfl) (query_parses writable)

end Queries

/-- An expression that is read from some text without parameters. -/
def Cypher.IsRead (e : Expression) : Prop :=
  ∃ bytes text rest, (expression.run ⟨bytes, []⟩).run text = .ok (e, rest)

/-- The query that returns one expression. -/
def Query.returning (spell : String → String) (e : Expression) : Query :=
  ⟨[], [], [], none, some ⟨false, [⟨e, none, e.printed spell⟩], [], none, none⟩⟩

theorem Query.returning_writable {spell : String → String} {e : Expression}
    (back : PrintsBack (Expression.tokens spell) e) :
    (Query.returning spell e).Writable (Expression.tokens spell) := by
  have item : ReturnItem.Writable (Expression.tokens spell) ⟨e, none, e.printed spell⟩ :=
    ⟨back, rfl, nofun⟩
  have clause : ReturnClause.Writable (Expression.tokens spell)
      ⟨false, [⟨e, none, e.printed spell⟩], [], none, none⟩ :=
    ⟨List.cons_ne_nil _ _, List.forall_mem_singleton.mpr item, nofun, nofun, nofun⟩
  exact ⟨rfl, nofun, nofun, nofun, nofun, fun r member => by cases member; exact clause⟩

theorem Query.returning_written {spell : String → String} {e : Expression}
    (begins : Begins (e.tokens spell)) : (Query.returning spell e).written true
      (Expression.tokens spell) = "RETURN " ++ e.printed spell := by
  have tokens : (Query.returning spell e).tokens true (Expression.tokens spell) =
      "RETURN".toList :: e.tokens spell := by
    have item : ReturnItem.tokens (Expression.tokens spell) ⟨e, none, e.printed spell⟩ =
        e.tokens spell := List.append_nil _
    have clause : ReturnClause.tokens true (Expression.tokens spell)
        ⟨false, [⟨e, none, e.printed spell⟩], [], none, none⟩ = e.tokens spell :=
      (List.append_nil _).trans item
    exact congrArg ("RETURN".toList :: ·) clause
  obtain ⟨token, more, same, _⟩ := begins
  rw [Query.written, tokens, Expression.printed, same]
  have joined : textOf ("RETURN".toList :: token :: more) =
      "RETURN" ++ " " ++ textOf (token :: more) := rfl
  rw [joined]
  rfl

/-- Operators group by their levels and to the left: an expression that was read once is read again
from the text with the fewest parentheses, and nothing of that is left. -/
theorem printed_expression_parses {spell : String → String} {e : Expression} (read : IsRead e)
    (plain : e.Plain spell) (parameters : Properties) :
    Statement.parse ("RETURN " ++ e.printed spell) parameters =
        .ok ⟨false, Query.returning spell e⟩ ∧
      Takes statement ("RETURN " ++ e.printed spell).toList ⟨false, Query.returning spell e⟩
        [] := by
  obtain ⟨bytes, text, rest, read⟩ := read
  have back := Expression.printsBack plain (Expression.normal_of_read read)
  have taken : Takes statement ((Query.returning spell e).written true
      (Expression.tokens spell)).toList ⟨false, Query.returning spell e⟩ [] :=
    written_takes (Query.returning_writable back)
  rw [Query.returning_written back.heads.begins] at taken
  exact ⟨parse_of_takes taken parameters, taken⟩

/-- A sign, a sum in a product, and a negative number. -/
def signedProduct : Expression :=
  .binary (.negate (.reference "x")) .mul
    (.binary (.literal (.int 1)) .add (.literal (.int (-2))))

theorem signedProduct_plain : signedProduct.Plain id :=
  .binary _ _ _ (.negate _ (.reference "x" (by decide) (by decide)))
    (.binary _ _ _ (.literal _ (.int 1 (by decide))) (.literal _ (.int (-2) (by decide))))

theorem signedProduct_normal : signedProduct.Normal :=
  .binary _ _ _ (.negate _ rfl (.reference "x" (by decide)))
    (.binary _ _ _ (.literal _ (.number _ rfl)) (.literal _ (.number _ rfl)))

theorem Cypher.IsRead.of_printsBack {print : Expression → List Token} {e : Expression}
    (back : PrintsBack print e) : IsRead e := by
  obtain ⟨after, _, taken⟩ := back.parses (spaced (print e)) [] (.inl (List.append_nil _).symm)
    (.nil 0)
  exact ⟨0, spaced (print e), after, taken ⟨0, []⟩⟩

theorem signed_product_parses :
    IsRead signedProduct ∧ signedProduct.Plain id ∧
      Statement.parse "RETURN - x * ( 1 + - 2 )" [] =
        .ok ⟨false, Query.returning id signedProduct⟩ ∧
      Takes statement "RETURN - x * ( 1 + - 2 )".toList
        ⟨false, Query.returning id signedProduct⟩ [] := by
  have read : IsRead signedProduct :=
    .of_printsBack (Expression.printsBack signedProduct_plain signedProduct_normal)
  have printed : "RETURN " ++ signedProduct.printed id = "RETURN - x * ( 1 + - 2 )" := by
    decide +kernel
  have parsed := printed_expression_parses read signedProduct_plain []
  rw [printed] at parsed
  exact ⟨read, signedProduct_plain, parsed⟩

/-- A query is read back from its text, whatever its clauses, if its expressions are read back. -/
theorem written_query_parses (terse : Bool) {print : Expression → List Token} {q : Query}
    (writable : q.Writable print) (parameters : Properties) :
    Statement.parse (q.written terse print) parameters = .ok ⟨false, q⟩ ∧
      Takes statement (q.written terse print).toList ⟨false, q⟩ [] :=
  ⟨parse_of_takes (written_takes writable) parameters, written_takes writable⟩

section Sample

/-- `a.name`, and `a.age > 1`. -/
def nameOfA : Expression := .property "a" "name"

def olderThanOne : Expression := .binary (.property "a" "age") .gt (.literal (.int 1))

def sampleNode : NodePattern := ⟨some "a", ["Person"], [("size", .literal (.int 3))]⟩

def samplePath : PathPattern :=
  ⟨sampleNode, [(⟨some "r", ["KNOWS", "LIKES"], [], .incoming, some ⟨1, some 2⟩⟩,
    ⟨some "b", [], []⟩)]⟩

/-- One clause of every kind but CREATE. -/
def sampleQuery : Query :=
  ⟨[⟨[samplePath], some olderThanOne⟩], [], [⟨"b", "seen", .literal (.bool true)⟩],
    some ⟨true, ["r"]⟩, some ⟨true, [⟨nameOfA, some "n", "a . name"⟩],
      [⟨nameOfA, true, "a . name"⟩], some 1, some 3⟩⟩

def sampleText : String :=
  "MATCH ( a : Person { size : 3 } ) <- [ r : KNOWS | LIKES * 1 .. 2 ] - ( b ) " ++
    "WHERE a . age > 1 SET b . seen = TRUE DETACH DELETE r RETURN DISTINCT a . name AS n " ++
    "ORDER BY a . name DESC SKIP 1 LIMIT 3"

theorem nameOfA_back : PrintsBack (Expression.tokens id) nameOfA :=
  Expression.printsBack (.property "a" "name" (by decide) (by decide) (by decide))
    (.property "a" "name" (by decide))

theorem olderThanOne_back : PrintsBack (Expression.tokens id) olderThanOne :=
  Expression.printsBack
    (.binary _ _ _ (.property "a" "age" (by decide) (by decide) (by decide))
      (.literal _ (.int 1 (by decide))))
    (.binary _ _ _ (.property "a" "age" (by decide)) (.literal _ (.number _ rfl)))

theorem samplePath_writable : samplePath.Writable (Expression.tokens id) := by
  have three : PrintsBack (Expression.tokens id) (.literal (.int 3)) :=
    Expression.printsBack (.literal _ (.int 3 (by decide))) (.literal _ (.number _ rfl))
  have start : sampleNode.Writable (Expression.tokens id) :=
    ⟨by decide, by decide, List.forall_mem_singleton.mpr three⟩
  refine ⟨start, List.forall_mem_singleton.mpr ⟨⟨by decide, by decide, ?_, nofun⟩,
    ⟨by decide, nofun, nofun⟩⟩⟩
  intro range member
  cases member
  exact ⟨by decide, by decide⟩

theorem sampleQuery_writable : sampleQuery.Writable (Expression.tokens id) := by
  have seen : PrintsBack (Expression.tokens id) (.literal (.bool true)) :=
    Expression.printsBack (.literal _ (.bool true)) (.literal _ (.bool true))
  refine ⟨rfl, List.forall_mem_singleton.mpr ⟨List.cons_ne_nil _ _,
    List.forall_mem_singleton.mpr samplePath_writable, ?_⟩, nofun,
    List.forall_mem_singleton.mpr ⟨by decide, by decide, seen⟩, ?_, ?_⟩
  · intro e member
    cases member
    exact olderThanOne_back
  · intro d member
    cases member
    exact ⟨List.cons_ne_nil _ _, by decide⟩
  · intro r member
    cases member
    refine ⟨List.cons_ne_nil _ _,
      List.forall_mem_singleton.mpr ⟨nameOfA_back, by decide +kernel, by decide⟩,
      List.forall_mem_singleton.mpr ⟨nameOfA_back, by decide +kernel⟩, ?_, ?_⟩
    · intro n member
      cases member
      decide
    · intro n member
      cases member
      decide

theorem sample_query_parses :
    sampleQuery.Writable (Expression.tokens id) ∧
      sampleQuery.written false (Expression.tokens id) = sampleText ∧
      Statement.parse sampleText [] = .ok ⟨false, sampleQuery⟩ ∧
      Takes statement sampleText.toList ⟨false, sampleQuery⟩ [] := by
  have text : sampleQuery.written false (Expression.tokens id) = sampleText := by decide +kernel
  have parsed := written_query_parses false sampleQuery_writable []
  rw [text] at parsed
  exact ⟨sampleQuery_writable, text, parsed⟩

end Sample

end PropertyGraph
