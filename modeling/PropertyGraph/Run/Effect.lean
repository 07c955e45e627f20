import PropertyGraph.Formula.Evaluate
import PropertyGraph.Run.Collect
import PropertyGraph.Run.Navigate

/-!
Steps that label and remember, compute formulas, and change the graph.
-/

namespace PropertyGraph

namespace Exec

def defaultLabel : String := "vertex"

def createVertex (label : Option String) : Exec Value := do
  let world ← get
  let label := label.getD defaultLabel
  let (id, store) := world.store.addVertex label []
  set { world with store }
  return .vertex ⟨id, label⟩

def createEdge (label : String) (source target : VertexId) : Exec Value := do
  let world ← get
  let (id, store) ← liftFault .missing (world.store.addEdge label source target [])
  set { world with store }
  return .edge ⟨id, label, source, target⟩

end Exec

namespace Application

open Exec

def addV (a : Application) (stream : Stream) : Exec Stream := do
  let label ← if a.arguments.isEmpty then pure none else some <$> a.text 0
  mapEach (fun _ => createVertex label) stream

/-- The end of a new edge: what the label names, or the object itself. -/
def edgeEnd (m : Option Modulation) (t : Traverser) : Exec VertexId :=
  match m with
  | none => vertexIdOf t.object
  | some m => do
      let label ← m.text 0
      match ← named? t .last label with
      | some value => vertexIdOf value
      | none => throw (.unboundEnd label)

def addE (a : Application) (stream : Stream) : Exec Stream := do
  let label ← a.text 0
  mapEach (fun t => do
    let source ← edgeEnd (a.last? .from_) t
    let target ← edgeEnd (a.last? .to_) t
    createEdge label source target) stream

def as_ (a : Application) (stream : Stream) : Exec Stream :=
  return stream.map fun t => a.labels.foldl Traverser.addLabel t

def remember (key : String) (values : List Value) (world : World) : World :=
  let known := (Dictionary.get? key world.sideEffects).getD []
  { world with sideEffects := Dictionary.put key (known ++ values) world.sideEffects }

def aggregate (a : Application) (stream : Stream) : Exec Stream := do
  let key ← a.text 0
  modify (remember key (objects stream))
  return stream

def cap (a : Application) : Exec Stream := do
  let key ← a.text 0
  match Dictionary.get? key (← get).sideEffects with
  | some values => return [.start (.list values)]
  | none => throw (.unknownSideEffect key)

def indexed : Nat → List Value → List Value
  | _, [] => []
  | n, item :: rest => .list [item, .ofNat n] :: indexed (n + 1) rest

def index : Stream → Exec Stream :=
  mapEach fun t =>
    match t.object with
    | .list items => pure (.list (indexed 0 items))
    | other => pure (.list [other, .ofNat 0])

def constant (a : Application) (stream : Stream) : Exec Stream := do
  let value ← a.value 0
  mapEach (fun _ => pure value) stream

def literal? : Argument → Option Value
  | .literal v => some v
  | _ => none

def inject (a : Application) (stream : Stream) : Exec Stream :=
  return (a.arguments.filterMap literal?).map .start ++ stream

/-- The number that a variable of a formula stands for; `_` is the object. -/
def variableNumber (by_ : Option Child) (name : String) (t : Traverser) : Exec Binary64 := do
  let current ← if name == "_" then pure (some t.object) else named? t .last name
  let value ← match current, by_ with
    | some value, some child => child.first? (t.split value)
    | current, _ => pure current
  match value.bind Value.number? with
  | some x => return x
  | none => throw (.unboundVariable name)

def bindings (bys : List (Option Child)) (t : Traverser) :
    Nat → List String → Exec (Dictionary String Binary64)
  | _, [] => pure []
  | index, name :: rest => do
      let x ← variableNumber (byAt bys index) name t
      return (name, x) :: (← bindings bys t (index + 1) rest)

def math (a : Application) (stream : Stream) : Exec Stream := do
  match ← a.value 0 with
  | .string formula =>
      let names ← liftFault .formula (Formula.variableNames formula)
      mapEach (fun t => do
        let known ← bindings a.bys t 0 names
        return .float (← liftFault .formula (Formula.evaluate formula known))) stream
  | other => a.inapplicable other

def dropOne (a : Application) (t : Traverser) : Exec Unit := do
  match t.object with
  | .vertex v => update fun g => .ok (g.removeVertex v.id)
  | .edge e => update fun g => .ok (g.removeEdge e.id)
  | .property (.vertex id) key _ => update fun g => g.removeVertexProperty id key
  | .property (.edge id) key _ => update fun g => g.removeEdgeProperty id key
  | other => a.inapplicable other
  modify fun world => { world with store := world.store.countDrop }

def drop (a : Application) : Stream → Exec Stream :=
  forEach fun t => do
    a.dropOne t
    return []

/-- The arguments of a property step: an optional cardinality, then the key and the value. -/
def propertyArguments : List Argument → Option Cardinality × Nat × List Argument
  | .cardinality c :: rest => (some c, 1, rest)
  | arguments => (none, 0, arguments)

def keyFrom (a : Application) (index : Nat) (t : Traverser) :
    List Argument → List Child → Exec (String × List Child)
  | .label key :: _, children => pure (key, children)
  | .literal (.string key) :: _, children => pure (key, children)
  | .token token :: _, _ => throw (.propertyToken token)
  | .program _ :: _, child :: children => do
      match ← child.first? t with
      | some (.string key) => return (key, children)
      | other => throw (.propertyKeyNotText other)
  | .program _ :: _, [] => throw .propertyWithoutTraversal
  | _, _ => throw (.invalidArgument a.kind index)

def valueFrom (a : Application) (index : Nat) (key : String) (t : Traverser) :
    List Argument → List Child → Exec Value
  | .literal value :: _, _ => pure value
  | .program _ :: _, child :: _ => do
      match ← child.first? t with
      | some value => return value
      | none => throw (.propertyWithoutValue key)
  | .program _ :: _, [] => throw .propertyWithoutTraversal
  | _, _ => throw (.invalidArgument a.kind index)

/-- What is stored: a value on its own, or at the end of a list if it is to be kept there. -/
def stored (cardinality : Option Cardinality) (old : Option Value) (value : Value) : Value :=
  match cardinality with
  | some .list => .list (known ++ [value])
  | some .set => .list (if known.contains value then known else known ++ [value])
  | _ => value
where
  known : List Value :=
    match old with
    | some (.list items) => items
    | some other => [other]
    | none => []

/-- Writes a property; an unknown value removes it, and edges hold single values only. -/
def writeProperty (a : Application) (t : Traverser) : Exec Unit := do
  let (cardinality, index, arguments) := propertyArguments a.arguments
  let (key, children) ← a.keyFrom index t arguments a.children
  let value ← a.valueFrom (index + 1) key t arguments.tail children
  match t.object with
  | .vertex v =>
      if value.isUnknown then update fun g => g.removeVertexProperty v.id key
      else update fun g =>
        let old := (g.vertex? v.id).bind fun vertex => Dictionary.get? key vertex.properties
        g.setVertexProperty v.id key (stored cardinality old value)
  | .edge e =>
      if value.isUnknown then update fun g => g.removeEdgeProperty e.id key
      else update fun g => g.setEdgeProperty e.id key value
  | other => a.inapplicable other

def property (a : Application) : Stream → Exec Stream :=
  forEach fun t => do
    a.writeProperty t
    return [t]

end Application

end PropertyGraph
