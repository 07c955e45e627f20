import PropertyGraph.Client.Normalize
import PropertyGraph.Cypher.Compiler
import PropertyGraph.Json.Reader
import PropertyGraph.Run.Plan

/-!
Clients: their settings, read from a JSON text where what is not given keeps its default, and a
store with the queries that are run and explained on it. Queries that cannot be read or have no
script are rejected before anything runs; a run that fails keeps what it had changed.
-/

namespace PropertyGraph

inductive ExplainFormat where
  | groovy
  | bytecode
deriving DecidableEq

structure Config where
  host : String
  port : Nat
  loopLimit : Nat
  explain : ExplainFormat

namespace Config

def default : Config := ⟨"0.0.0.0", 8182, 1000, .groovy⟩

open Json.Reader

def explainFormat? (tag : String) : Option ExplainFormat :=
  if tag == "groovy" then some .groovy else if tag == "bytecode" then some .bytecode else none

def explainFormat : Json.Reader ExplainFormat :=
  variant explainFormat? fun _ => throw .mismatch

/-- A number that fits so many bits. -/
def unsigned (bits : Nat) : Json.Reader Nat := do
  return (← expectInt 0 (twoTo bits - 1)).toNat

/-- Up to two parts in order. -/
def upToTwo {α β : Type} (first : Json.Reader α) (second : Json.Reader β) :
    Json.Reader (Option α × Option β) := do
  match ← element? true first with
  | none => return (none, none)
  | some a => return (some a, ← element? false second)

structure ServerParts where
  host : Option String
  port : Option Nat

def server : Json.Reader ServerParts :=
  expectStructure
    (do
      let (host, port) ← upToTwo expectString (unsigned 16)
      return ⟨host, port⟩)
    (members serverField ⟨none, none⟩)
where
  serverField (known : ServerParts) : Json.Reader ServerParts := do
    let name ← string
    if name == "host" then return { known with host := ← field known.host expectString }
    else if name == "port" then return { known with port := ← field known.port (unsigned 16) }
    else unknownField known

def engine : Json.Reader (Option Nat) :=
  expectStructure (element? true (unsigned 32)) (members engineField none)
where
  engineField (known : Option Nat) : Json.Reader (Option Nat) := do
    let name ← string
    if name == "max_loops" then field known (unsigned 32) else unknownField known

structure Parts where
  server : Option ServerParts
  engine : Option (Option Nat)
  explain : Option ExplainFormat

def partField (known : Parts) : Json.Reader Parts := do
  let name ← string
  if name == "server" then return { known with server := ← field known.server server }
  else if name == "engine" then return { known with engine := ← field known.engine engine }
  else if name == "explain" then
    return { known with explain := ← field known.explain explainFormat }
  else unknownField known

def parts : Json.Reader Parts :=
  expectStructure
    (do
      let (server, engine) ← upToTwo server engine
      let explain ← if engine.isSome then element? false explainFormat else pure none
      return ⟨server, engine, explain⟩)
    (members partField ⟨none, none, none⟩)

def ofParts (given : Parts) : Config where
  host := (given.server.bind (·.host)).getD default.host
  port := (given.server.bind (·.port)).getD default.port
  loopLimit := given.engine.join.getD default.loopLimit
  explain := given.explain.getD default.explain

def ofJson? (text : String) : Option Config :=
  match document parts text with
  | .ok given => some (ofParts given)
  | .error _ => none

end Config

inductive Outcome where
  | rows (found : List Row)
  | rejected (error : Error)
  | failed (error : Error)

structure Client where
  store : Store
  engine : Engine
  explain : ExplainFormat

namespace Metrics

def countRun (m : Metrics) (rows : Option Nat) : Metrics :=
  match rows with
  | some n =>
      { m with queries := m.queries + 1, succeeded := m.succeeded + 1, rows := m.rows + n }
  | none => { m with queries := m.queries + 1, failed := m.failed + 1 }

def countCompilation (m : Metrics) : Metrics := { m with compilations := m.compilations + 1 }

def countRejection (m : Metrics) : Metrics :=
  { m with rejections := m.rejections + 1 }

def countExplanation (m : Metrics) : Metrics := { m with explanations := m.explanations + 1 }

end Metrics

namespace Client

def ofConfig (config : Config) : Client := ⟨.empty, .standard config.loopLimit, config.explain⟩

def count (client : Client) (change : Metrics → Metrics) : Client :=
  { client with store := { client.store with metrics := change client.store.metrics } }

def run (client : Client) (l : Live) : Outcome × Client :=
  let (result, store) := l.execute client.engine client.store
  let after := { client with store }
  match result.bind Normalize.rows with
  | .ok rows => (.rows rows, after.count (·.countRun (some rows.length)))
  | .error fault => (.failed (.execution fault), after.count (·.countRun none))

def explanation (client : Client) (q : Query) : Except Error String := do
  let compiled ← q.compile (match client.explain with
    | .groovy => .groovy
    | .bytecode => .program)
  return compiled.text

def explainRow (s : Statement) (compiled : String) : Row :=
  [("translation", .string compiled), ("options", .string s.options)]

def reject (client : Client) (error : Error) : Outcome × Client :=
  (.rejected error, client.count Metrics.countRejection)

def submitStatement (client : Client) (s : Statement) : Outcome × Client :=
  let client := client.count Metrics.countCompilation
  if s.explain then
    match client.explanation s.query with
    | .ok text => (.rows [explainRow s text], client.count Metrics.countExplanation)
    | .error error => client.reject error
  else
    match s.query.buildOn Live.onGraph with
    | .ok l => client.run l
    | .error error => client.reject error

def submit (client : Client) (text : String) (parameters : Properties) : Outcome × Client :=
  match Statement.parse text parameters with
  | .ok s => client.submitStatement s
  | .error fault => client.reject (.parse fault)

def submitProgram (client : Client) (p : Program) : Outcome × Client :=
  match Live.ofProgram? true p with
  | .ok l => client.run l
  | .error fault => (.rejected (.build fault), client)

end Client

end PropertyGraph
