import PropertyGraph.Proofs.Cypher.ClauseAgreement
import PropertyGraph.Proofs.Cypher.Statements

/-!
Texts as parameters. They stand in a query as literals, and only as literals: whatever characters
they are made of, the query keeps its clauses and its program keeps its steps.
-/

namespace PropertyGraph

open Cypher

variable {before after : Properties}

theorem Cypher.statement_twin {R : Expression → Expression → Prop}
    (mirrors : Mirrors before after R) (counts : ∀ n e e', R e e' →
      (e = .literal (.int n) ↔ e' = .literal (.int n))) :
    Twin before after (fun s t : Statement => s.explain = t.explain ∧ s.query.Paired R t.query)
      statement statement := by
  rw [statement_eq]
  exact .after_ (tryKeyword_steady _) fun explain => (queryAlone_twin mirrors counts).map
    fun _ _ paired => ⟨rfl, paired⟩

/-- Both texts are read as related statements, or none of them is read. -/
theorem Statement.parse_twin {related : Statement → Statement → Prop}
    (twin : Twin before after related statement statement) (text : String) :
    Option.Rel related (Statement.parse text before).toOption
      (Statement.parse text after).toOption := by
  have both := twin (Text.byteLength text.toList) (Text.byteLength text.toList) text.toList
  unfold Statement.parse
  dsimp only
  rw [toOption_bind, toOption_bind]
  generalize ((statement.run ⟨Text.byteLength text.toList, before⟩).run text.toList).toOption =
    found, ((statement.run ⟨Text.byteLength text.toList, after⟩).run text.toList).toOption =
    found' at both
  cases both with
  | none => exact .none
  | some together => exact .some together.1

/-- With texts as parameters a query is read with any of them or with none. Where it is read, it has
the same clauses, and it becomes the same steps, or none for the same reason: only the values in
them differ, where the same parameter stands for one text and for another. -/
theorem text_parameters_keep_structure (text : String)
    (texts : TextsUnderSameNames before after) :
    Option.Rel
      (fun s t : Statement => s.explain = t.explain ∧
        s.query.Paired (Expression.Corresponds before after) t.query ∧
        Alike (Program.Corresponds before after) s.query.program t.query.program)
      (Statement.parse text before).toOption (Statement.parse text after).toOption := by
  have read := Statement.parse_twin
    (statement_twin (mirrors_corresponds texts) Expression.Corresponds.int_iff) text
  generalize (Statement.parse text before).toOption = found,
    (Statement.parse text after).toOption = found' at read
  cases read with
  | none => exact .none
  | some same => exact .some ⟨same.1, same.2, Query.program_corresponds same.2⟩

theorem TextsUnderSameNames.single (name s t : String) :
    TextsUnderSameNames [(name, .string s)] [(name, .string t)] := by
  have text (u other : String) (v : Value)
      (given : Dictionary.get? other [(name, .string u)] = some v) : ∃ s, v = .string s := by
    rw [Dictionary.get?] at given
    split at given
    · exact ⟨u, (Option.some.inj given).symm⟩
    · cases given
  refine ⟨fun other => ?_, text s, text t⟩
  by_cases same : name = other
  · simp [Dictionary.has, Dictionary.get?, same]
  · simp [Dictionary.has, Dictionary.get?, same]

/-- A name is looked up, and the column shows it in a list. -/
def lookedUp : String :=
  "MATCH (n:Person {name: $name}) WHERE n.name STARTS WITH $name AND n.rank IN [$name, 1] "
    ++ "RETURN [$name, n.rank] AS found ORDER BY found"

/-- A text that looks like the end of the query. -/
def hostileName : String := "x'".push '}' ++ ") DETACH DELETE n //"

theorem hostile_name_keeps_structure :
    TextsUnderSameNames [("name", .string "Ann")] [("name", .string hostileName)] ∧
      (Statement.parse lookedUp [("name", .string "Ann")]).toOption.isSome = true ∧
      Option.Rel
        (fun s t : Statement => s.explain = t.explain ∧
          s.query.Paired (Expression.Corresponds [("name", .string "Ann")]
            [("name", .string hostileName)]) t.query ∧
          Alike (Program.Corresponds [("name", .string "Ann")] [("name", .string hostileName)])
            s.query.program t.query.program)
        (Statement.parse lookedUp [("name", .string "Ann")]).toOption
        (Statement.parse lookedUp [("name", .string hostileName)]).toOption := by
  have texts := TextsUnderSameNames.single "name" "Ann" hostileName
  exact ⟨texts, by decide +kernel, text_parameters_keep_structure lookedUp texts⟩

end PropertyGraph
