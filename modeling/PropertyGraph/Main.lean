import PropertyGraph.Console.Session
import PropertyGraph.Number.Arithmetic

/-!
The console program. It reads lines until one of them ends the session or the input does, or runs
one query that is given with `-e`. `-c` names a file of settings, and `--bytecode` explains queries
by their steps.
-/

namespace PropertyGraph.Console

structure Options where
  config : Option String
  bytecode : Bool
  query : Option String

/-- Reads the arguments; an argument that is not known is the error. -/
def Options.read : Options → List String → Except String Options
  | known, [] => .ok known
  | known, "-c" :: file :: rest => read { known with config := some file } rest
  | known, "--config" :: file :: rest => read { known with config := some file } rest
  | known, "-e" :: query :: rest => read { known with query := some query } rest
  | known, "--execute" :: query :: rest => read { known with query := some query } rest
  | known, "--bytecode" :: rest => read { known with bytecode := true } rest
  | _, other :: _ => .error other

/-- A client and the microseconds that its queries took together. -/
structure Running where
  client : Client
  microseconds : Nat

def Running.averageQuery (r : Running) : Binary64 :=
  match r.client.store.metrics.queries with
  | 0 => .zero false
  | n => ((Binary64.ofInt r.microseconds).div (Binary64.ofInt n)).div (Binary64.ofInt 1000)

def timed {α : Type} (running : Running) (step : Client → α × Client) :
    IO (α × Clock × Running) := do
  let started ← IO.monoNanosNow
  let (result, client) := step running.client
  let ran := client.store.metrics.queries != running.client.store.metrics.queries
  let microseconds := ((← IO.monoNanosNow) - started) / 1000
  let running := ⟨client, if ran then running.microseconds + microseconds else running.microseconds⟩
  return (result, ⟨microseconds / 1000, running.averageQuery⟩, running)

def clearScreen : String := "\x1b[H\x1b[2J"

partial def converse (input : IO.FS.Stream) (running : Running) : IO Unit := do
  IO.print "cypher> "
  (← IO.getStdout).flush
  let line ← input.getLine
  unless line.isEmpty do
    let (reply, clock, running) ← timed running fun client => Console.reply client line
    match reply with
    | .exit => pure ()
    | .clear =>
        IO.print clearScreen
        converse input running
    | .printed content =>
        IO.print (content.render clock)
        converse input running

def configOf (options : Options) : IO (Option Config) := do
  match options.config with
  | none => return some .default
  | some file => return Config.ofJson? (← IO.FS.readFile file)

def start (options : Options) (config : Config) : IO Unit := do
  let format := if options.bytecode then .bytecode else config.explain
  let running : Running := ⟨.ofConfig { config with explain := format }, 0⟩
  match options.query with
  | some query =>
      let (content, clock, _) ← timed running fun client => runQuery client query.toList
      IO.print (content.render clock)
  | none =>
      IO.println "cyphergraph CLI"
      IO.println "输入 :help 查看帮助，:quit 退出\n"
      converse (← IO.getStdin) running
      IO.println "Bye"

end PropertyGraph.Console

open PropertyGraph.Console in
def main (arguments : List String) : IO UInt32 := do
  match Options.read ⟨none, false, none⟩ arguments with
  | .error argument =>
      IO.eprintln ("unexpected argument: " ++ argument)
      return 2
  | .ok options =>
      match ← configOf options with
      | none =>
          IO.eprintln "the settings cannot be read"
          return 1
      | some config =>
          start options config
          return 0
