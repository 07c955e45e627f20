import PropertyGraph.Proofs.Client.Portable
import PropertyGraph.Proofs.Cypher.Statements

/-!
Explained queries. The word in front shifts the text, and the program comes from the other backend;
neither makes a difference to what is shown or refused.
-/

namespace PropertyGraph

open Cypher

/-- Whether a text begins with a keyword, behind blanks and comments. -/
def Cypher.opensWith (word text : String) : Bool :=
  (afterKeyword? word.toList (dropBlanks text.toList)).isSome

/-- The live traversal that a text asks for, if it can be read and translated. -/
def Live.ofText? (text : String) (parameters : Properties) : Except Error Live :=
  match Statement.parse text parameters with
  | .ok s => s.query.buildOn Live.onGraph
  | .error fault => .error (.parse fault)

/-- A program as the client is told to show programs. -/
def ExplainFormat.show : ExplainFormat → Program → String
  | .groovy, p => Groovy.ofProgram p
  | .bytecode, p => p.text

namespace Statement

variable {text : String} {parameters : Properties}

theorem parse_plain (plain : opensWith "EXPLAIN" text = false) :
    Statement.parse text parameters =
      (fun found => ⟨false, found.1⟩) <$>
        (queryAlone.run ⟨Text.byteLength text.toList, parameters⟩).run text.toList := by
  have absent : afterKeyword? "EXPLAIN".toList (dropBlanks text.toList) = none := by
    simpa [opensWith] using plain
  exact (statement_run _ _).trans (by rw [absent])

theorem parse_explained :
    Statement.parse ("EXPLAIN " ++ text) parameters =
      (fun found => ⟨true, found.1⟩) <$>
        (queryAlone.run ⟨Text.byteLength ("EXPLAIN " ++ text).toList, parameters⟩).run
          text.toList := by
  have chars : ("EXPLAIN " ++ text).toList = "EXPLAIN".toList ++ ' ' :: text.toList := by simp
  have word : afterKeyword? "EXPLAIN".toList (dropBlanks ("EXPLAIN " ++ text).toList) =
      some (' ' :: text.toList) := by
    rw [chars]
    rfl
  have blank : dropBlanks (' ' :: text.toList) = dropBlanks text.toList := rfl
  refine (statement_run _ _).trans ?_
  rw [word]
  dsimp only
  rw [← queryAlone_blanks, blank, queryAlone_blanks]

/-- Behind EXPLAIN the same query is read, or none. -/
theorem parse_explained_alike (parameters : Properties) (plain : opensWith "EXPLAIN" text = false) :
    (∃ q, Statement.parse text parameters = .ok ⟨false, q⟩ ∧
      Statement.parse ("EXPLAIN " ++ text) parameters = .ok ⟨true, q⟩) ∨
    ∃ fault shifted, Statement.parse text parameters = .error fault ∧
      Statement.parse ("EXPLAIN " ++ text) parameters = .error shifted := by
  have twin := queryAlone_twin (.eq parameters) fun n e e' same => by rw [same]
  have both := twin (Text.byteLength text.toList) (Text.byteLength ("EXPLAIN " ++ text).toList)
    text.toList
  rw [parse_plain plain, parse_explained]
  generalize (queryAlone.run ⟨Text.byteLength text.toList, parameters⟩).run text.toList = plainly
    at both
  generalize (queryAlone.run ⟨Text.byteLength ("EXPLAIN " ++ text).toList, parameters⟩).run
    text.toList = explained at both
  cases plainly with
  | ok found =>
      cases explained with
      | ok other =>
          obtain ⟨q, rest⟩ := other
          cases both with
          | some together =>
              cases together.1.eq
              exact .inl ⟨found.1, rfl, rfl⟩
      | error fault => cases both
  | error fault =>
      cases explained with
      | ok other => cases both
      | error other => exact .inr ⟨fault, other, rfl, rfl⟩

end Statement

namespace Client

/-- Both backends refuse a query for the same reason, or show and hold the same program. -/
theorem explanation_eq (client : Client) (q : Query) :
    client.explanation q = (fun l => client.explain.show l.program) <$>
      q.buildOn Live.onGraph := by
  have alike := q.buildOn_faithful
  unfold explanation Query.compile Query.program
  generalize q.buildOn Recorder.rootedAtGraph = recording at alike
  generalize q.buildOn Live.onGraph = building at alike
  cases alike with
  | error fault => cases client.explain <;> rfl
  | @ok recorder live same =>
      cases format : client.explain with
      | groovy => exact congrArg (fun p => Except.ok (Groovy.ofProgram p)) same.simulates.program
      | bytecode => exact congrArg (fun p => Except.ok p.text) same.simulates.program

end Client

theorem Live.ofText?_compiles {text : String} {parameters : Properties} {l : Live}
    (accepted : Live.ofText? text parameters = .ok l) : Live.ofProgram? true l.program = .ok l := by
  unfold Live.ofText? at accepted
  split at accepted
  · obtain ⟨p, _, compiled⟩ := Query.program_of_built accepted
    obtain ⟨plan, _, same⟩ := bind_eq_ok.mp compiled
    cases same
    exact compiled
  · cases accepted

/-- Explaining a query leaves the graph alone. Where the query can be read and translated, the one
row that is found shows the program of the very traversal that the query by itself would run; and
where it cannot, both are rejected, with errors of one kind. -/
theorem explaining_shows_what_would_run (client : Client) (q : String) (parameters : Properties)
    (plain : opensWith "EXPLAIN" q = false) :
    (client.submit ("EXPLAIN " ++ q) parameters).2.store.graph = client.store.graph ∧
    (∀ l, Live.ofText? q parameters = .ok l →
      (client.submit ("EXPLAIN " ++ q) parameters).1 = .rows
        [[("translation", .string (client.explain.show l.program)),
          ("options", .string "[EXPLAIN]")]] ∧
      Live.ofProgram? true l.program = .ok l ∧
      client.submit q parameters = (client.count Metrics.countCompilation).run l) ∧
    ∀ error, Live.ofText? q parameters = .error error →
      (∃ shifted, (client.submit ("EXPLAIN " ++ q) parameters).1 = .rejected shifted ∧
        shifted.kind = error.kind) ∧
      (client.submit q parameters).1 = .rejected error := by
  have compiles (l : Live) : Live.ofText? q parameters = .ok l → _ := Live.ofText?_compiles
  rcases Statement.parse_explained_alike parameters plain with
    ⟨query, parsed, explained⟩ | ⟨fault, shifted, parsed, explained⟩
  · simp only [Live.ofText?, Client.submit, Client.submitStatement, Client.explanation_eq, parsed,
      explained, if_true, Bool.false_eq_true, if_false] at compiles ⊢
    cases built : query.buildOn Live.onGraph with
    | ok l =>
        refine ⟨rfl, ?_, fun _ no => by cases no⟩
        rintro _ ⟨⟩
        exact ⟨rfl, compiles l built, rfl⟩
    | error fault =>
        refine ⟨rfl, (fun _ no => by cases no), ?_⟩
        rintro _ ⟨⟩
        exact ⟨⟨fault, rfl, rfl⟩, rfl⟩
  · simp only [Live.ofText?, Client.submit, parsed, explained]
    refine ⟨rfl, (fun _ no => by cases no), ?_⟩
    rintro _ ⟨⟩
    exact ⟨⟨_, rfl, rfl⟩, rfl⟩

def newPerson : String := r#"CREATE (n:person {name: "Bob"})"#

theorem explained_creation_creates_nothing :
    opensWith "EXPLAIN" newPerson = false ∧ ∃ l, Live.ofText? newPerson [] = .ok l ∧
      ((⟨⟨.empty, .zero⟩, .standard 10, .groovy⟩ : Client).submit ("EXPLAIN " ++ newPerson)
        []).1 = .rows [[("translation", .string (Groovy.ofProgram l.program)),
          ("options", .string "[EXPLAIN]")]] ∧
      ((⟨⟨.empty, .zero⟩, .standard 10, .groovy⟩ : Client).submit ("EXPLAIN " ++ newPerson)
        []).2.store.graph = .empty := by
  have plain : opensWith "EXPLAIN" newPerson = false := by decide +kernel
  have accepted : (Live.ofText? newPerson []).isOk = true := by decide +kernel
  obtain ⟨unchanged, shown, _⟩ :=
    explaining_shows_what_would_run ⟨⟨.empty, .zero⟩, .standard 10, .groovy⟩ newPerson [] plain
  cases built : Live.ofText? newPerson [] with
  | error fault => simp [built, Except.isOk, Except.toBool] at accepted
  | ok l => exact ⟨plain, l, rfl, (shown l built).1, unchanged⟩

end PropertyGraph
