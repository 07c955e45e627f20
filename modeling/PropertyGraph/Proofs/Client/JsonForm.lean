import PropertyGraph.Proofs.Client.Portable
import PropertyGraph.Proofs.Cypher.Literals
import PropertyGraph.Proofs.Cypher.QueryMaterial
import PropertyGraph.Proofs.Program.Json

/-!
Programs of queries in JSON. Elements can come into a query as parameters only, and maps have each
key once, so the numbers and the depth of a program alone decide whether it survives its JSON form.
-/

namespace PropertyGraph

theorem Content.survives_of_proper {c : Content} (proper : c.isProper = true)
    (numbers : ∀ x, c = .float x → x.readsBack = true) : c.survivesJson = true := by
  cases c with
  | float x => exact numbers x rfl
  | _ => exact proper

/-- A query whose program holds no floating-point number that JSON loses, and nests its containers
no deeper than readers go, is told by the JSON form of the program: the same program is read from
it, and running that gives the same rows or fault and leaves the same graph as the query. -/
theorem translated_query_survives_json {text : String} {parameters : Properties} {s : Statement}
    {p : Program} (parsed : Statement.parse text parameters = .ok s)
    (translated : s.query.program = .ok p)
    (given : ∀ v ∈ Dictionary.values parameters, v.Proper)
    (numbers : ∀ x, .float x ∈ p.contents → x.readsBack = true)
    (shallow : p.toJson.depth < 128) :
    Program.ofJson? p.toJson.text = some p ∧
      (s.explain = false → ∀ client : Client,
        (client.submit text parameters).1 = (client.submitProgram p).1 ∧
          (client.submit text parameters).2.store.graph =
            (client.submitProgram p).2.store.graph) := by
  have proper : p.Proper := (Query.program_made (m := .proper) (Statement.parse_proper parsed given)
    (.inl trivial) p translated).contents
  have survive : ∀ c ∈ p.contents, c.survivesJson = true := fun c held =>
    Content.survives_of_proper (proper c held) fun x same => numbers x (same ▸ held)
  refine ⟨Program.survives survive shallow, fun plain client => ?_⟩
  obtain ⟨l, built, compiled⟩ := Query.build_live translated
  simp only [Client.submit, parsed, Client.submitStatement, plain, built, Client.submitProgram,
    compiled]
  exact Client.run_same _ _ l rfl rfl

theorem program_of_check {text : String} {parameters : Properties} {check : Program → Bool}
    (checked : ((Statement.parse text parameters).toOption.any fun s =>
      !s.explain && s.query.program.toOption.any check) = true) :
    ∃ s p, Statement.parse text parameters = .ok s ∧ s.explain = false ∧
      s.query.program = .ok p ∧ check p = true := by
  cases parsed : Statement.parse text parameters with
  | error fault => simp [parsed, Except.toOption] at checked
  | ok s =>
      cases translated : s.query.program with
      | error fault => simp [parsed, translated, Except.toOption] at checked
      | ok p =>
          simp only [parsed, translated, Except.toOption, Option.any_some, Bool.and_eq_true,
            Bool.not_eq_true'] at checked
          exact ⟨s, p, rfl, checked.1, translated, checked.2⟩

/-- A number in a filter and in a parameter, and a key that is given twice. -/
def rankedFriends : String :=
  r#"MATCH (n {rank: 2.5}) RETURN $friend AS friend, {k: "v", k: [null]} AS m"#

def friendParameter : Properties :=
  [("friend", .list [.vertex ⟨⟨7⟩, "p"⟩, .float ⟨0x3FF8000000000000⟩])]

theorem ranked_friends_survive_json : ∃ s p,
    Statement.parse rankedFriends friendParameter = .ok s ∧ s.query.program = .ok p ∧
      (∀ v ∈ Dictionary.values friendParameter, v.Proper) ∧
      (∀ x, .float x ∈ p.contents → x.readsBack = true) ∧ p.toJson.depth < 128 ∧
      Program.ofJson? p.toJson.text = some p ∧
      ∀ client : Client, (client.submit rankedFriends friendParameter).1 =
        (client.submitProgram p).1 := by
  have checked : ((Statement.parse rankedFriends friendParameter).toOption.any fun s =>
      !s.explain && s.query.program.toOption.any fun p =>
        p.contents.all Content.survivesJson && decide (p.toJson.depth < 128)) = true := by
    decide +kernel
  obtain ⟨s, p, parsed, plain, translated, fits⟩ := program_of_check checked
  rw [Bool.and_eq_true, List.all_eq_true, decide_eq_true_eq] at fits
  have given : ∀ v ∈ Dictionary.values friendParameter, v.Proper := by
    simp [friendParameter, Dictionary.values, Value.Proper, Value.contents, Value.itemContents,
      VertexRef.contents, Content.isProper, twoTo]
  have numbers : ∀ x, .float x ∈ p.contents → x.readsBack = true := fun x held => fits.1 _ held
  obtain ⟨read, same⟩ := translated_query_survives_json parsed translated given numbers fits.2
  exact ⟨s, p, parsed, translated, given, numbers, fits.2, read,
    fun client => (same plain client).1⟩

theorem Program.ofJson?_text (p : Program) : Program.ofJson? p.toJson.text =
    (Json.Reader.program.run p.toJson.chars).toOption.bind fun found =>
      if found.2.all Json.Reader.isSpace then some found.1 else none := by
  rw [Program.ofJson?, Json.Reader.document, Json.text, String.toList_ofList]
  cases Json.Reader.program.run p.toJson.chars with
  | error fault => rfl
  | ok found =>
      dsimp only [bind, Except.bind, Except.toOption, Option.bind]
      generalize found.2.all Json.Reader.isSpace = blank
      cases blank <;> rfl

/-- An infinite number is written as something that is no number, and of a finite one the last digit
can change. -/
theorem json_loses_numbers :
    (∃ s p, Statement.parse "RETURN 1e999 AS x" [] = .ok s ∧ s.query.program = .ok p ∧
      Program.ofJson? p.toJson.text = none) ∧
    ∃ s p q, Statement.parse "RETURN 123456789.123456789 AS x" [] = .ok s ∧
      s.query.program = .ok p ∧ Program.ofJson? p.toJson.text = some q ∧ q ≠ p := by
  constructor
  · have checked : ((Statement.parse "RETURN 1e999 AS x" []).toOption.any fun s =>
        !s.explain && s.query.program.toOption.any fun p =>
          (Json.Reader.program.run p.toJson.chars).toOption.isNone) = true := by decide +kernel
    obtain ⟨s, p, parsed, -, translated, lost⟩ := program_of_check checked
    refine ⟨s, p, parsed, translated, ?_⟩
    rw [Program.ofJson?_text, Option.isNone_iff_eq_none.mp lost, Option.bind_none]
  · have checked : ((Statement.parse "RETURN 123456789.123456789 AS x" []).toOption.any fun s =>
        !s.explain && s.query.program.toOption.any fun p =>
          (Json.Reader.program.run p.toJson.chars).toOption.any fun found =>
            found.2.isEmpty && decide (found.1.toJson.chars ≠ p.toJson.chars)) = true := by
      decide +kernel
    obtain ⟨s, p, parsed, -, translated, changed⟩ := program_of_check checked
    have read := Program.ofJson?_text p
    generalize (Json.Reader.program.run p.toJson.chars).toOption = found at changed read
    cases found with
    | none => cases changed
    | some found =>
        obtain ⟨q, rest⟩ := found
        simp only [Option.any_some, Bool.and_eq_true, List.isEmpty_iff, decide_eq_true_eq] at changed
        obtain ⟨rfl, other⟩ := changed
        exact ⟨s, p, q, parsed, translated, read, fun same => other (same ▸ rfl)⟩

end PropertyGraph
