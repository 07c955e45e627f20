import PropertyGraph.Builder.Backend
import PropertyGraph.Cypher.QueryReader
import PropertyGraph.Cypher.ReturnScript
import PropertyGraph.Cypher.WriteScript
import PropertyGraph.Error
import PropertyGraph.Plan.Basic
import PropertyGraph.Program.Groovy

/-!
The script of a query, which any backend can carry out, and with it queries as programs, as texts,
and as live traversals.
-/

namespace PropertyGraph

namespace Cypher

/-- What starts a traversal that finds or creates nothing. -/
def startText : String := "  cypher.start"

def startOps : Scripting Ops := do
  if (← get).started then return []
  Scripting.start
  return [.append .inject [.literal (.string startText)]]

def queryOps (q : Query) : Scripting Ops := do
  let found ← matchClauses q.matches_
  let created ← createPaths q.create
  let started ← startOps
  let b := (← get).bindings
  let set ← setAll b q.set
  let deleted ← (q.delete.map (deleteOps b)).getD (.ok [])
  let returned ← (q.return_.map (returnOps b)).getD (.ok [.append .barrier [], .limit 0])
  return found ++ created ++ started ++ set ++ deleted ++ returned

end Cypher

def Query.script (q : Query) : Except CompileFault Script := do
  let (ops, _) ← (Cypher.queryOps q).run .empty
  return .of ops

/-- What a query is to become; a live traversal continues a given one. -/
inductive Target where
  | program
  | groovy
  | live (onto : Live)

inductive Compiled where
  | program (p : Program)
  | groovy (s : String)
  | live (l : Live)

namespace Compiled

def text : Compiled → String
  | .program p => p.text
  | .groovy s => s
  | .live l => l.program.text

def program? : Compiled → Except CompileFault Program
  | .program p => .ok p
  | .groovy _ => .error .textWithoutProgram
  | .live l => .ok l.program

def live? : Compiled → Except CompileFault Live
  | .live l => .ok l
  | _ => .error .notLive

end Compiled

namespace Query

def buildOn {σ : Type} [Backend σ] (q : Query) (b : σ) : Except Error σ :=
  match q.script with
  | .error fault => .error (.compilation fault)
  | .ok script =>
      match script.perform b with
      | .error fault => .error (.build fault)
      | .ok built => .ok built

def program (q : Query) : Except Error Program := do
  return (← q.buildOn Recorder.rootedAtGraph).program

def compile (q : Query) : Target → Except Error Compiled
  | .program => do return .program (← q.program)
  | .groovy => do return .groovy (Groovy.ofProgram (← q.program))
  | .live onto => do return .live (← q.buildOn onto)

end Query

end PropertyGraph
