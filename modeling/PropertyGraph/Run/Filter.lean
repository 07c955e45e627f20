import PropertyGraph.Run.Exec

/-!
Steps that let traversers pass or not.
-/

namespace PropertyGraph

namespace Exec

def propertiesOf (value : Value) : Exec Properties := do
  let g ← graph
  match value with
  | .vertex v =>
      match g.vertex? v.id with
      | some vertex => return vertex.properties
      | none => throw (.missing (.deletedVertex v.id))
  | .edge e =>
      match g.edge? e.id with
      | some edge => return edge.properties
      | none => throw (.missing (.deletedEdge e.id))
  | other => throw (.notElement other.typeName)

/-- A property of an element; nothing else has any. -/
def property? (value : Value) (key : String) : Exec (Option Value) :=
  match value with
  | .vertex _ | .edge _ => do return Dictionary.get? key (← propertiesOf value)
  | _ => pure none

end Exec

def Value.elementLabel? : Value → Option String
  | .vertex v => some v.label
  | .edge e => some e.label
  | _ => none

namespace Application

open Exec

def has (a : Application) (stream : Stream) : Exec Stream := do
  let key ← a.text 0
  keep (fun t => do
    match ← property? t.object key with
    | none => return false
    | some value =>
        match a.predicate? 1 with
        | some p => return p.test value
        | none => return true) stream

def hasNot (a : Application) (stream : Stream) : Exec Stream := do
  let key ← a.text 0
  keep (fun t => do return (← property? t.object key).isNone) stream

def hasLabel (a : Application) : Stream → Exec Stream :=
  keep fun t => return (t.object.elementLabel?).any a.labels.contains

def hasKey (a : Application) : Stream → Exec Stream :=
  keep fun t =>
    match t.object with
    | .property _ key _ => return a.labels.contains key
    | _ => return false

def matching (a : Application) (stream : Stream) : Exec Stream :=
  match a.predicate? 0 with
  | some p => keep (fun t => return p.test t.object) stream
  | none => throw (.invalidArgument a.kind 0)

/-- A predicate with every text that names something replaced by what it names. -/
def resolved (p : Predicate) (t : Traverser) : Exec Predicate := do
  let world ← get
  return p.mapValues fun
    | .string label => (world.named? t .last label).getD (.string label)
    | other => other

def where_ (a : Application) (stream : Stream) : Exec Stream :=
  match a.predicate? 0 with
  | some p => keep (fun t => do return (← resolved p t).test t.object) stream
  | none => do
      let child ← a.child 0
      keep child.hasResult stream

/-- Lets the first traverser of each key pass. -/
def distinctBy (keyOf : Traverser → Exec Value) : List Value → Stream → Exec Stream
  | _, [] => pure []
  | seen, t :: rest => do
      let key ← keyOf t
      if seen.contains key then distinctBy keyOf seen rest
      else return t :: (← distinctBy keyOf (key :: seen) rest)

def namedValues (t : Traverser) : List String → Exec (List Value)
  | [] => pure []
  | label :: rest => do
      return ((← named? t .last label).getD .null) :: (← namedValues t rest)

def dedup (a : Application) (stream : Stream) : Exec Stream :=
  distinctBy (fun t => do
    let key ← if a.labels.isEmpty then pure t.object else .list <$> namedValues t a.labels
    match (a.bys.head?).join with
    | none => return key
    | some child => return (← child.first? (t.split key)).getD .null) [] stream

def allDistinct : List Value → Bool
  | [] => true
  | value :: rest => !rest.contains value && allDistinct rest

def simplePath : Stream → Exec Stream := keep fun t => return allDistinct t.path

/-- Asks the sub-traversals one by one until one of them has a result, or has none. -/
def anyChild (wanted : Bool) (t : Traverser) : List Child → Exec Bool
  | [] => pure false
  | child :: rest => do
      if (← child.hasResult t) == wanted then return true else anyChild wanted t rest

def and (a : Application) : Stream → Exec Stream :=
  keep fun t => do return !(← anyChild false t a.children)

def or (a : Application) : Stream → Exec Stream := keep fun t => anyChild true t a.children

def not (a : Application) (stream : Stream) : Exec Stream := do
  let child ← a.child 0
  keep (fun t => do return !(← child.hasResult t)) stream

end Application

end PropertyGraph
