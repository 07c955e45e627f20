import PropertyGraph.Proofs.Client.Explain
import PropertyGraph.Proofs.Client.Structure
import PropertyGraph.Server.Routes

/-!
The status of an answer to a query. The handler sees an error and not the phase that it comes from;
its kind is enough, since reading and translating have kinds of errors that no run of a translated
query has.
-/

namespace PropertyGraph

open Cypher Server

theorem Query.status_of_refused {q : Query} {error : Error}
    (refused : q.buildOn Live.onGraph = .error error) : statusOf error = 400 := by
  unfold Query.buildOn at refused
  split at refused
  · cases refused
    rfl
  · split at refused
    · rename_i fault _
      cases refused
      cases fault <;> rfl
    · cases refused

/-- Misplaced edges are the one fault of a run whose kind is a client's. -/
theorem ExecutionFault.status_of_expected {fault : ExecutionFault}
    (expected : fault.isOrdinary = true ∨ fault.IsDisorder) :
    statusOf (.execution fault) = 500 := by
  cases fault with
  | misplacedEdges =>
      rcases expected with ordinary | ⟨_, _, same, _⟩
      · cases ordinary
      · cases same
  | _ => rfl

namespace Client

variable (client : Client)

theorem run_built {q : Query} {l : Live} (fits : ∀ m ∈ q.matches_, m.Fits)
    (built : q.buildOn Live.onGraph = .ok l) :
    (∃ rows, (client.run l).1 = .rows rows) ∨
      ∃ fault, (client.run l).1 = .failed (.execution fault) ∧
        (fault.isOrdinary = true ∨ fault.IsDisorder) := by
  obtain ⟨result, after, _, _, within, executed⟩ :=
    built_executes fits built client.engine client.store
  simp only [run, executed]
  cases result with
  | ok stream =>
      obtain ⟨found, made⟩ := Returned.rows within
      exact .inl ⟨found, by simp only [map_ok, Except.bind, made]⟩
  | error fault => exact .inr ⟨fault, rfl, within⟩

/-- How a submission ends: it is rejected where its text has no traversal, with an error of the
client's kinds; otherwise it has rows, or its run fails with an ordinary fault or in a sort. -/
theorem submit_ends (text : String) (parameters : Properties) :
    (∃ error refusal, (client.submit text parameters).1 = .rejected error ∧
      Live.ofText? text parameters = .error refusal ∧ statusOf error = 400) ∨
    ∃ l, Live.ofText? text parameters = .ok l ∧
      ((∃ rows, (client.submit text parameters).1 = .rows rows) ∨
        ∃ fault, (client.submit text parameters).1 = .failed (.execution fault) ∧
          (fault.isOrdinary = true ∨ fault.IsDisorder)) := by
  unfold submit Live.ofText?
  cases parsed : Statement.parse text parameters with
  | error fault => exact .inl ⟨_, _, rfl, rfl, rfl⟩
  | ok s =>
      simp only [submitStatement, explanation_eq]
      cases built : s.query.buildOn Live.onGraph with
      | error refusal =>
          refine .inl ⟨refusal, refusal, ?_, rfl, Query.status_of_refused built⟩
          cases s.explain <;> rfl
      | ok l =>
          refine .inr ⟨l, rfl, ?_⟩
          cases s.explain with
          | true => exact .inl ⟨_, rfl⟩
          | false => exact run_built _ (Statement.parse_fits parsed) built

end Client

/-- The values that a request gives the parameters of its query. -/
def Server.QueryRequest.values (asked : QueryRequest) : Properties :=
  asked.parameters.map fun (name, json) => (name, Value.ofJson json)

/-- A request that posts a query, in a body of the right type, size and form. -/
structure Request.Posts (request : Request) (asked : QueryRequest) : Prop where
  method : request.method = "POST"
  path : pathOf request.path = "/query"
  type : request.contentType.any MediaType.isJson = true
  size : request.body.utf8ByteSize ≤ bodyLimit
  body : ∃ rest, queryRequest.run request.body.toList = .ok (asked, rest)

theorem Request.Posts.answer {request : Request} {asked : QueryRequest}
    (posts : request.Posts asked) (client : Client) (timing : Option Timing) :
    (respond client timing request).1 = ofOutcome (client.submit asked.query asked.values).1 := by
  obtain ⟨rest, body⟩ := posts.body
  have fits : ¬bodyLimit < request.body.utf8ByteSize := Nat.not_lt.mpr posts.size
  simp [respond, posts.method, posts.path, Server.query, posts.type, if_neg fits, body, runQuery,
    QueryRequest.values]

/-- A larger body is refused before it is read, whatever stands in it. -/
theorem Request.larger_body_is_refused (client : Client) (timing : Option Timing)
    {request : Request} (method : request.method = "POST") (path : pathOf request.path = "/query")
    (type : request.contentType.any MediaType.isJson = true)
    (large : bodyLimit < request.body.utf8ByteSize) :
    respond client timing request = (bare 413, client) := by
  simp [respond, method, path, Server.query, type, large]

/-- The status tells where a posted query ended: 400 if it was rejected, which it is just where its
text cannot be read or translated, explained or not; 500 if its run failed, or the rows of the run;
200 if there are rows. -/
theorem status_tells_where_a_query_ended (client : Client) (timing : Option Timing)
    {request : Request} {asked : QueryRequest} (posts : request.Posts asked) :
    ((∃ error, (client.submit asked.query asked.values).1 = .rejected error) ↔
      ∃ refusal, Live.ofText? asked.query asked.values = .error refusal) ∧
    ((respond client timing request).1.status = 400 ↔
      ∃ error, (client.submit asked.query asked.values).1 = .rejected error) ∧
    ((respond client timing request).1.status = 500 ↔
      ∃ error, (client.submit asked.query asked.values).1 = .failed error) ∧
    ((respond client timing request).1.status = 200 ↔
      ∃ rows, (client.submit asked.query asked.values).1 = .rows rows) := by
  rw [posts.answer]
  rcases client.submit_ends asked.query asked.values with
    ⟨error, refusal, rejected, refused, status⟩ |
    ⟨l, accepted, ⟨rows, ended⟩ | ⟨fault, failed, expected⟩⟩
  · simp [rejected, refused, ofOutcome, status]
  · simp [ended, accepted, ofOutcome, ok]
  · simp [failed, accepted, ofOutcome, ExecutionFault.status_of_expected expected]

/-- A query that is read and translated, and fails when it runs. -/
def divisionRequest : Request :=
  ⟨"POST", "/query?trace=1", some "application/json", r#"{"query": "RETURN 1 / 0"}"#⟩

theorem divisionRequest_posts : divisionRequest.Posts ⟨"RETURN 1 / 0", []⟩ := by
  have read : ((queryRequest.run divisionRequest.body.toList).toOption.any fun found =>
      found.1.query == "RETURN 1 / 0" && found.1.parameters.isEmpty) = true := by decide +kernel
  refine ⟨rfl, by decide +kernel, by decide +kernel, by decide +kernel, ?_⟩
  generalize queryRequest.run divisionRequest.body.toList = result at read ⊢
  cases result with
  | error fault => simp [Except.toOption] at read
  | ok found =>
      obtain ⟨⟨query, parameters⟩, rest⟩ := found
      simp only [Except.toOption, Option.any_some, Bool.and_eq_true, beq_iff_eq,
        List.isEmpty_iff] at read
      exact ⟨rest, by rw [read.1, read.2]⟩

theorem division_by_zero_is_a_failed_run :
    divisionRequest.Posts ⟨"RETURN 1 / 0", []⟩ ∧
      (respond ⟨⟨.empty, .zero⟩, .standard 10, .groovy⟩ none divisionRequest).1.status = 500 ∧
      ∃ error, ((⟨⟨.empty, .zero⟩, .standard 10, .groovy⟩ : Client).submit "RETURN 1 / 0" []).1 =
        .failed error := by
  have answered : (respond ⟨⟨.empty, .zero⟩, .standard 10, .groovy⟩ none
      divisionRequest).1.status = 500 := by
    rw [divisionRequest_posts.answer]
    decide +kernel
  exact ⟨divisionRequest_posts, answered,
    (status_tells_where_a_query_ended _ _ divisionRequest_posts).2.2.1.mp answered⟩

end PropertyGraph
