import PropertyGraph.Client.Basic
import PropertyGraph.Graph.Metrics
import PropertyGraph.Number.Decimal
import PropertyGraph.Value.Json

/-!
Answers to requests. The status of a query tells how far it came: 400 if its text was rejected, 500
if its run failed. A body must be JSON by its type (415), not too large (413), JSON as a text (400)
and of the right form (422). Metrics are also given as the text that monitoring collects: for each
of them its help, its kind and its value.
-/

namespace PropertyGraph.Exposition

structure Sample where
  name : String
  help : String
  kind : String
  value : String

def counter (name help : String) (n : Nat) : Sample := ⟨name, help, "counter", natText n⟩

def gauge (name help : String) (x : Binary64) : Sample := ⟨name, help, "gauge", Decimal.fixed 2 x⟩

def samples (m : Metrics) (t : Timing) : List Sample :=
  [counter "queries_total" "Total number of queries" m.queries,
    counter "queries_success_total" "Number of successful queries" m.succeeded,
    counter "queries_failed_total" "Number of failed queries" m.failed,
    gauge "query_duration_avg_ms" "Average query duration in milliseconds" t.averageQuery,
    counter "slow_queries_total" "Number of slow queries (>1s)" m.slow,
    counter "rows_returned_total" "Total result rows returned" m.rows,
    gauge "qps" "Queries per second" t.queryRate,
    counter "translations_total" "Total Cypher to Gremlin translations" m.compilations,
    counter "explain_queries_total" "Number of EXPLAIN queries" m.explanations,
    counter "translation_errors_total" "Number of failed translations" m.rejections,
    counter "vertices_inserted_total" "Total vertices inserted" m.verticesInserted,
    counter "edges_inserted_total" "Total edges inserted" m.edgesInserted,
    counter "elements_dropped_total" "Total elements dropped" m.elementsDropped,
    counter "uptime_seconds" "System uptime in seconds" t.uptime]

def Sample.lines (s : Sample) : List String :=
  ["# HELP cyphergraph_" ++ s.name ++ " " ++ s.help,
    "# TYPE cyphergraph_" ++ s.name ++ " " ++ s.kind,
    "cyphergraph_" ++ s.name ++ " " ++ s.value]

def lines (m : Metrics) (t : Timing) : List String := (samples m t).flatMap Sample.lines

def text (m : Metrics) (t : Timing) : String :=
  String.join ((lines m t).map fun line => line ++ "\n")

end PropertyGraph.Exposition

namespace PropertyGraph.MediaType

/-- Letters, digits and the marks that may stand in a name. -/
def isTokenChar (c : Char) : Bool :=
  c.isAlpha || isDigit c || ['!', '#', '$', '%', '&', '\'', '*', '+', '-', '.', '^', '_', '`',
    '|', '~'].contains c

def isQuotedChar (c : Char) : Bool := c.toNat > 31 && c.toNat < 127

/-- What follows the name of a parameter and its equals sign. -/
def afterName (first : Bool) : List Char → Option (List Char)
  | [] => none
  | c :: rest =>
      if c = '=' then if first then none else some rest
      else if isTokenChar c then afterName false rest
      else none

/-- What follows a quoted value. A quote that comes first belongs to the value. -/
def afterQuoted (first : Bool) : List Char → Option (List Char)
  | [] => none
  | c :: rest =>
      if c = '"' && !first then some rest
      else if isQuotedChar c then afterQuoted false rest
      else none

/-- What follows the semicolon behind a quoted value. -/
def afterBlanks : List Char → Option (List Char)
  | [] => some []
  | c :: rest => if c = ';' then some rest else if c = ' ' then afterBlanks rest else none

/-- What follows a plain value and its semicolon. Only the last value may be empty. -/
def afterPlain (first : Bool) : List Char → Option (List Char)
  | [] => some []
  | c :: rest =>
      if c = ';' then if first then none else some rest
      else if isTokenChar c then afterPlain false rest
      else none

def afterValue : List Char → Option (List Char)
  | '"' :: rest => (afterQuoted true rest).bind afterBlanks
  | text => afterPlain true text

/-- Parameters up to the end, with fuel for each. -/
def areParameters : Nat → List Char → Bool
  | 0, _ => false
  | fuel + 1, text =>
      match text.dropWhile (· == ' ') with
      | [] => true
      | text => ((afterName true text).bind afterValue).any (areParameters fuel)

/-- The parts of a subtype at its last plus sign. -/
def splitSuffix (subtype : List Char) : List Char × Option (List Char) :=
  let reversed := subtype.reverse
  match reversed.dropWhile (· != '+') with
  | [] => (subtype, none)
  | [_] => (subtype, none)
  | _ :: before => (before.reverse, some (reversed.takeWhile (· != '+')).reverse)

def isWord (word : String) (text : List Char) : Bool := text.map Char.toLower == word.toList

/-- What may follow a subtype. -/
def areParametersBehind : List Char → Bool
  | [] => true
  | c :: rest => c = ';' && areParameters (rest.length + 1) rest

def isJson (text : String) : Bool :=
  match text.toList.dropWhile isTokenChar with
  | '/' :: rest =>
      let (base, suffix) := splitSuffix (rest.takeWhile isTokenChar)
      isWord "application" (text.toList.takeWhile isTokenChar)
        && (isWord "json" base || suffix.any (isWord "json"))
        && areParametersBehind (rest.dropWhile isTokenChar)
  | _ => false

end PropertyGraph.MediaType

namespace PropertyGraph

structure Request where
  method : String
  path : String
  contentType : Option String
  body : String

structure Response where
  status : Nat
  body : String

namespace Server

def version : String := "0.1.0"

def ok (json : Json) : Response := ⟨200, json.text⟩

def bare (status : Nat) : Response := ⟨status, ""⟩

def health : Response := ok (.object [("status", .string "ok"), ("version", .string version)])

/-- The state of a store; times are left out unless they are given. -/
def statistics (store : Store) (timing : Option Timing) : Json :=
  let m := store.metrics
  let queryTimes := timing.toList.flatMap fun t =>
    [("avg_duration_ms", Json.float t.averageQuery), ("qps", Json.float t.queryRate)]
  let systemTimes := timing.toList.map fun t => ("uptime_seconds", Json.int t.uptime)
  .sorted [("query", .sorted ([("total", .int m.queries), ("success", .int m.succeeded),
      ("failed", .int m.failed), ("slow_queries", .int m.slow),
      ("rows_returned", .int m.rows)] ++ queryTimes)),
    ("translation", .sorted [("translations", .int m.compilations),
      ("explain_queries", .int m.explanations), ("errors", .int m.rejections)]),
    ("graph", .sorted [("vertices", .int store.graph.vertices.length),
      ("labels", .array (store.graph.labels.map .string)),
      ("edges", .int store.graph.edges.length), ("vertices_inserted", .int m.verticesInserted),
      ("edges_inserted", .int m.edgesInserted), ("elements_dropped", .int m.elementsDropped)]),
    ("system", .sorted ([("version", .string version)] ++ systemTimes))]

structure QueryRequest where
  query : String
  parameters : List (String × Json)

open Json.Reader

def parameterFields : Json.Reader (List (String × Json)) := do
  if (← peek) = some '{' then
    match ← value (depthLimit - 1) with
    | .object fields => pure fields
    | _ => throw .mismatch
  else otherKind

structure RequestParts where
  query : Option String
  parameters : Option (List (String × Json))

def requestField (known : RequestParts) : Json.Reader RequestParts := do
  let name ← string
  if name == "query" then return { known with query := ← field known.query expectString }
  else if name == "parameters" then
    return { known with parameters := ← field known.parameters parameterFields }
  else unknownField known

def queryRequest : Json.Reader QueryRequest :=
  expectStructure
    (do
      let query ← expectElement true expectString
      return ⟨query, (← element? false parameterFields).getD []⟩)
    (do
      let known ← members requestField ⟨none, none⟩
      return ⟨← required known.query, known.parameters.getD []⟩)

def rowJson (row : Row) : Json := .sorted (row.map fun (column, value) => (column, value.toJson))

def rowsBody (rows : List Row) : Json :=
  .object [("success", .bool true), ("data", .array (rows.map rowJson))]

def errorBody (e : Error) : Json :=
  .object [("success", .bool false), ("error", .string e.message)]

/-- What the kind of an error says about the request. -/
def statusOf (e : Error) : Nat :=
  match e.kind with
  | .parse | .compilation | .illegalArgument | .illegalState => 400
  | _ => 500

def ofOutcome : Outcome → Response
  | .rows rows => ok (rowsBody rows)
  | .rejected e => ⟨statusOf e, (errorBody e).text⟩
  | .failed e => ⟨statusOf e, (errorBody e).text⟩

def runQuery (client : Client) (request : QueryRequest) : Response × Client :=
  let parameters := request.parameters.map fun (name, json) => (name, Value.ofJson json)
  let (outcome, client) := client.submit request.query parameters
  (ofOutcome outcome, client)

/-- The bytes that a body may have. -/
def bodyLimit : Nat := 2 * 1024 * 1024

/-- A query from the body; what follows its first JSON value does not matter. -/
def query (client : Client) (request : Request) : Response × Client :=
  if !request.contentType.any MediaType.isJson then (bare 415, client)
  else if bodyLimit < request.body.utf8ByteSize then (bare 413, client)
  else
    match queryRequest.run request.body.toList with
    | .error .malformed => (bare 400, client)
    | .error .mismatch => (bare 422, client)
    | .ok (found, _) => runQuery client found

def page (request : Request) (full : Response) : Response :=
  if request.method == "GET" then full
  else if request.method == "HEAD" then bare full.status
  else bare 405

def isSchemeChar (c : Char) : Bool := c.isAlphanum || ['+', '-', '.'].contains c

/-- The host of a target and what follows it, if the target begins with a scheme. -/
def afterScheme? (target : List Char) : Option (List Char) :=
  match target.dropWhile isSchemeChar with
  | ':' :: '/' :: '/' :: rest => some rest
  | _ => none

def endsPath (c : Char) : Bool := c = '?' || c = '#'

/-- The path up to a query or a fragment. -/
def pathFrom (target : List Char) : List Char := target.takeWhile (!endsPath ·)

/-- The path of a target, which may begin with a scheme and a host. -/
def pathOf (target : String) : String :=
  String.ofList <| match afterScheme? target.toList with
    | none => pathFrom target.toList
    | some rest => pathFrom (rest.dropWhile fun c => c != '/' && !endsPath c)

def respond (client : Client) (timing : Option Timing) (request : Request) : Response × Client :=
  if request.method == "OPTIONS" then (bare 200, client)
  else
    match pathOf request.path with
    | "/health" => (page request health, client)
    | "/metrics" =>
        let text := Exposition.text client.store.metrics (timing.getD .untimed)
        (page request ⟨200, text⟩, client)
    | "/stats" => (page request (ok (statistics client.store timing)), client)
    | "/query" => if request.method == "POST" then query client request else (bare 405, client)
    | _ => (bare 404, client)

end Server

end PropertyGraph
