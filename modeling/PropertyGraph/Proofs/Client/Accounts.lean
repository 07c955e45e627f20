import PropertyGraph.Proofs.Client.Explain
import PropertyGraph.Proofs.Run.Metrics

/-!
What the counters of a client say after any submissions. A text that is submitted is rejected,
explained or run, and a program is run unless it does not compile; each way out has its counters, so
that they add up to what was submitted.
-/

namespace PropertyGraph

open PropertyGraph.Graph

/-- What a client is asked for, and awaited to its end. -/
inductive Submission where
  | text (query : String) (parameters : Properties)
  | program (p : Program)

namespace Submission

def perform (client : Client) : Submission → Outcome × Client
  | text query parameters => client.submit query parameters
  | program p => client.submitProgram p

def performAll (client : Client) : List Submission → List (Submission × Outcome) × Client
  | [] => ([], client)
  | s :: rest =>
      let (outcome, next) := s.perform client
      let (log, after) := performAll next rest
      ((s, outcome) :: log, after)

/-- Whether there is anything to count: programs that do not compile leave no trace. -/
def isTaken : Submission → Bool
  | text _ _ => true
  | program p => (Live.ofProgram? true p).isOk

def isRead : Submission → Bool
  | text query parameters => (Statement.parse query parameters).isOk
  | program _ => false

def isExplained : Submission → Bool
  | text query parameters => (Statement.parse query parameters).toOption.any Statement.explain
  | program _ => false

end Submission

def Outcome.rowCount : Outcome → Nat
  | .rows found => found.length
  | _ => 0

/-- The rows that a submission found by running; an explanation is not run. -/
def Submission.rowsFound (s : Submission) (outcome : Outcome) : Nat :=
  if s.isExplained then 0 else outcome.rowCount

/-- The rows that all submissions found. -/
def Submission.allRowsFound : List (Submission × Outcome) → Nat
  | [] => 0
  | (s, outcome) :: rest => s.rowsFound outcome + allRowsFound rest

theorem Submission.allRowsFound_append (log : List (Submission × Outcome)) (s : Submission)
    (outcome : Outcome) :
    allRowsFound (log ++ [(s, outcome)]) = allRowsFound log + s.rowsFound outcome := by
  induction log with
  | nil => exact Nat.add_comm _ _
  | cons done rest ih => rw [List.cons_append, allRowsFound, ih, allRowsFound, Nat.add_assoc]

/-- What counters of queries hold after submissions with their outcomes. -/
structure Metrics.Accounts (m : Metrics) (log : List (Submission × Outcome)) : Prop where
  ended : m.queries = m.succeeded + m.failed
  taken : m.queries + m.explanations + m.rejections = log.countP fun done => done.1.isTaken
  read : m.compilations = log.countP fun done => done.1.isRead
  rows : m.rows = Submission.allRowsFound log

/-- What a run does to the counters of queries. -/
structure Metrics.Ran (before : Metrics) (outcome : Outcome) (after : Metrics) : Prop where
  queries : after.queries = before.queries + 1
  ended : after.succeeded + after.failed = before.succeeded + before.failed + 1
  rows : after.rows = before.rows + outcome.rowCount
  compilations : after.compilations = before.compilations
  explanations : after.explanations = before.explanations
  rejections : after.rejections = before.rejections

namespace Metrics

variable {before after : Metrics}

theorem SameQueries.ran (same : before.SameQueries after) (outcome : Outcome)
    (rows : Option Nat) (found : outcome.rowCount = rows.getD 0) :
    before.Ran outcome (after.countRun rows) := by
  obtain ⟨queries, succeeded, failed, _, known, compilations, explanations, rejections⟩ := same
  cases rows <;> constructor <;> simp only [countRun, found, Option.getD] <;> omega

theorem Ran.accounts {s : Submission} {outcome : Outcome} {log : List (Submission × Outcome)}
    (ran : before.Ran outcome after) (isTaken : s.isTaken = true) (plain : s.isExplained = false)
    (ended : before.queries = before.succeeded + before.failed)
    (taken : before.queries + before.explanations + before.rejections =
      log.countP fun done => done.1.isTaken)
    (read : before.compilations = (log ++ [(s, outcome)]).countP fun done => done.1.isRead)
    (rows : before.rows = Submission.allRowsFound log) :
    after.Accounts (log ++ [(s, outcome)]) where
  ended := by rw [ran.queries, ran.ended, ended]
  taken := by
    rw [ran.queries, ran.explanations, ran.rejections]
    simp only [List.countP_append, List.countP_singleton, isTaken, if_true, ← taken]
    omega
  read := ran.compilations.trans read
  rows := by simp [ran.rows, rows, Submission.allRowsFound_append, Submission.rowsFound, plain]

end Metrics

namespace Store.Inserts

variable {before after : Store} {requests : List Graph.Request}

theorem congr {other last : Store} (inserts : before.Inserts requests after)
    (first : other.graph = before.graph ∧
      other.metrics.verticesInserted = before.metrics.verticesInserted ∧
      other.metrics.edgesInserted = before.metrics.edgesInserted)
    (second : last.graph = after.graph ∧
      last.metrics.verticesInserted = after.metrics.verticesInserted ∧
      last.metrics.edgesInserted = after.metrics.edgesInserted) :
    other.Inserts requests last := by
  constructor <;> simp only [first, second]
  · exact inserts.graph
  · exact inserts.vertices
  · exact inserts.edges

end Store.Inserts

theorem Client.run_counts (client : Client) (l : Live) :
    (∃ requests, client.store.Inserts requests (client.run l).2.store) ∧
      client.store.metrics.Ran (client.run l).1 (client.run l).2.store.metrics := by
  obtain ⟨⟨requests, inserts⟩, same⟩ := l.execute_counts client.engine client.store
  simp only [run]
  generalize l.execute client.engine client.store = seen at inserts same
  obtain ⟨result, store⟩ := seen
  cases result.bind Normalize.rows with
  | ok rows => exact ⟨⟨requests, inserts.congr ⟨rfl, rfl, rfl⟩ ⟨rfl, rfl, rfl⟩⟩,
      same.ran (.rows rows) (some rows.length) rfl⟩
  | error fault => exact ⟨⟨requests, inserts.congr ⟨rfl, rfl, rfl⟩ ⟨rfl, rfl, rfl⟩⟩,
      same.ran (.failed (.execution fault)) none rfl⟩

namespace Submission

variable {client : Client} {s : Submission}

/-- The ways in which a submission ends, each with what it leaves of the client. -/
inductive Ends (client : Client) (s : Submission) : Outcome × Client → Prop
  | refused (error : Error) (taken : s.isTaken = false) (read : s.isRead = false) :
      Ends client s (.rejected error, client)
  | unread (error : Error) (taken : s.isTaken = true) (read : s.isRead = false) :
      Ends client s (client.reject error)
  | untranslated (error : Error) (taken : s.isTaken = true) (read : s.isRead = true) :
      Ends client s ((client.count Metrics.countCompilation).reject error)
  | explained (rows : List Row) (taken : s.isTaken = true) (read : s.isRead = true)
      (explained : s.isExplained = true) :
      Ends client s (.rows rows,
        (client.count Metrics.countCompilation).count Metrics.countExplanation)
  | text (l : Live) (taken : s.isTaken = true) (read : s.isRead = true)
      (plain : s.isExplained = false) :
      Ends client s ((client.count Metrics.countCompilation).run l)
  | program (l : Live) (taken : s.isTaken = true) (read : s.isRead = false)
      (plain : s.isExplained = false) : Ends client s (client.run l)

theorem ends (client : Client) (s : Submission) : Ends client s (s.perform client) := by
  cases s with
  | program p =>
      dsimp only [perform, Client.submitProgram]
      cases compiled : Live.ofProgram? true p with
      | ok l => exact .program l (by simp [isTaken, compiled, Except.isOk, Except.toBool]) rfl rfl
      | error fault =>
          exact .refused _ (by simp [isTaken, compiled, Except.isOk, Except.toBool]) rfl
  | text query parameters =>
      dsimp only [perform, Client.submit]
      cases parsed : Statement.parse query parameters with
      | error fault =>
          exact .unread _ rfl (by simp [isRead, parsed, Except.isOk, Except.toBool])
      | ok statement =>
          have read : isRead (.text query parameters) = true := by
            simp [isRead, parsed, Except.isOk, Except.toBool]
          have explains : isExplained (.text query parameters) = statement.explain := by
            simp [isExplained, parsed, Except.toOption]
          dsimp only [Client.submitStatement]
          rw [Client.explanation_eq]
          cases explain : statement.explain with
          | true =>
              cases statement.query.buildOn Live.onGraph with
              | ok l => exact .explained _ rfl read (explains.trans explain)
              | error refusal => exact .untranslated _ rfl read
          | false =>
              cases statement.query.buildOn Live.onGraph with
              | ok l => exact .text l rfl read (explains.trans explain)
              | error refusal => exact .untranslated _ rfl read

theorem Ends.inserts {ended : Outcome × Client} (ends : Ends client s ended) :
    ∃ requests, client.store.Inserts requests ended.2.store := by
  cases ends with
  | text l =>
      obtain ⟨requests, inserts⟩ := (Client.run_counts (client.count .countCompilation) l).1
      exact ⟨requests, inserts.congr ⟨rfl, rfl, rfl⟩ ⟨rfl, rfl, rfl⟩⟩
  | program l => exact (Client.run_counts client l).1
  | _ => exact ⟨[], rfl, rfl, rfl⟩

theorem Ends.accounts {log : List (Submission × Outcome)} {ended : Outcome × Client}
    (ends : Ends client s ended) (accounts : client.store.metrics.Accounts log) :
    ended.2.store.metrics.Accounts (log ++ [(s, ended.1)]) := by
  obtain ⟨balanced, taken, read, rows⟩ := accounts
  cases ends with
  | refused error isTaken isRead =>
      constructor <;>
        simp [isTaken, isRead, allRowsFound_append, rowsFound, Outcome.rowCount, balanced, read,
          rows]
      omega
  | unread error isTaken isRead =>
      constructor <;>
        simp [isTaken, isRead, allRowsFound_append, rowsFound, Outcome.rowCount, Client.reject,
          Client.count, Metrics.countRejection, balanced, read, rows]
      omega
  | untranslated error isTaken isRead =>
      constructor <;>
        simp [isTaken, isRead, allRowsFound_append, rowsFound, Outcome.rowCount, Client.reject,
          Client.count, Metrics.countRejection, Metrics.countCompilation, balanced, read, rows]
      omega
  | explained found isTaken isRead isExplained =>
      constructor <;>
        simp [isTaken, isRead, isExplained, allRowsFound_append, rowsFound, Client.count,
          Metrics.countExplanation, Metrics.countCompilation, balanced, read, rows]
      omega
  | text l isTaken isRead plain =>
      exact (Client.run_counts _ l).2.accounts isTaken plain balanced taken
        (by simp [isRead, Client.count, Metrics.countCompilation, read]) rows
  | program l isTaken isRead plain =>
      exact (Client.run_counts _ l).2.accounts isTaken plain balanced taken (by simp [isRead, read])
        rows

theorem performAll_accounts {log : List (Submission × Outcome)} (submissions : List Submission)
    (accounts : client.store.metrics.Accounts log) :
    (performAll client submissions).2.store.metrics.Accounts
      (log ++ (performAll client submissions).1) := by
  induction submissions generalizing client log with
  | nil => simpa [performAll] using accounts
  | cons s rest ih =>
      have next := ih ((ends client s).accounts accounts)
      rwa [List.append_assoc] at next

theorem performAll_inserts (client : Client) (submissions : List Submission) :
    ∃ requests, client.store.Inserts requests (performAll client submissions).2.store := by
  induction submissions generalizing client with
  | nil => exact ⟨[], .refl _⟩
  | cons s rest ih =>
      obtain ⟨requests, inserts⟩ := (ends client s).inserts
      obtain ⟨others, more⟩ := ih (s.perform client).2
      exact ⟨requests ++ others, inserts.trans more⟩

theorem performAll_asked (client : Client) (submissions : List Submission) :
    (performAll client submissions).1.map Prod.fst = submissions := by
  induction submissions generalizing client with
  | nil => rfl
  | cons s rest ih => exact congrArg (s :: ·) (ih _)

end Submission

/-- After any submissions to a client whose counters were reset: runs that were counted succeeded or
failed; runs, explanations and rejections add up to the texts and the programs that compile;
compilations are the texts that can be read; rows are those that runs found; and insertions are the
ids that were given to new vertices and edges, also by runs that failed later. -/
theorem counters_account_for_every_submission (client : Client) (submissions : List Submission) :
    let fresh := { client with store := client.store.resetMetrics }
    let ended := Submission.performAll fresh submissions
    let counters := ended.2.store.metrics
    ended.1.map Prod.fst = submissions ∧
    counters.queries = counters.succeeded + counters.failed ∧
    counters.queries + counters.explanations + counters.rejections =
      submissions.countP Submission.isTaken ∧
    counters.compilations = submissions.countP Submission.isRead ∧
    counters.rows = Submission.allRowsFound ended.1 ∧
    ∃ requests,
      (Request.performAll client.store.graph requests).2 = ended.2.store.graph ∧
      counters.verticesInserted =
        ((Request.performAll client.store.graph requests).1.filterMap Answer.vertex?).length ∧
      counters.edgesInserted =
        ((Request.performAll client.store.graph requests).1.filterMap Answer.edge?).length := by
  intro fresh ended counters
  have asked : ended.1.map Prod.fst = submissions := Submission.performAll_asked _ submissions
  have accounts : counters.Accounts ([] ++ ended.1) :=
    Submission.performAll_accounts submissions ⟨rfl, rfl, rfl, rfl⟩
  obtain ⟨requests, inserts⟩ := Submission.performAll_inserts fresh submissions
  refine ⟨asked, accounts.ended, ?_, ?_, accounts.rows, requests, inserts.graph.symm, ?_, ?_⟩
  · rw [accounts.taken, ← asked, List.countP_map]
    rfl
  · rw [accounts.read, ← asked, List.countP_map]
    rfl
  · exact inserts.vertices.trans (Nat.zero_add _)
  · exact inserts.edges.trans (Nat.zero_add _)

-- The vertex of the first text is counted, and its run is not counted as a success.
example :
    (fun m : Metrics => (m.queries, m.succeeded, m.failed, m.rows, m.verticesInserted))
      (Submission.performAll ⟨.empty, .standard 10, .groovy⟩
        [.text "CREATE (n:person) RETURN 1 / 0 AS x" [], .text "EXPLAIN MATCH (n) RETURN n" [],
          .text "MATCH (n) RETURN 1 AS x" []]).2.store.metrics = (2, 1, 1, 1, 1) := by
  decide +kernel

end PropertyGraph
