import PropertyGraph.Graph.Metrics
import PropertyGraph.Run.Fault
import PropertyGraph.Run.Traverser

/-!
Execution: streams of traversers over a store and named side effects. What was written before a
fault stays. A sub-traversal is what it does to a stream; a step is applied to its sub-traversals
and to those of its modulators.
-/

namespace PropertyGraph

structure World where
  store : Store
  sideEffects : Dictionary String (List Value)

abbrev Exec := ExceptT ExecutionFault (StateM World)

abbrev Stream := List Traverser

namespace Exec

def graph : Exec Graph := return (← get).store.graph

def liftFault {ε α : Type} (wrap : ε → ExecutionFault) : Except ε α → Exec α
  | .ok a => pure a
  | .error fault => throw (wrap fault)

/-- Replaces the graph unless an element is missing. -/
def update (change : Graph → Except MissingElement Graph) : Exec Unit := do
  let world ← get
  let graph ← liftFault .missing (change world.store.graph)
  set { world with store := { world.store with graph } }

/-- The results for each traverser, one after another. -/
def forEach (f : Traverser → Exec Stream) : Stream → Exec Stream
  | [] => pure []
  | t :: rest => do return (← f t) ++ (← forEach f rest)

def keep (test : Traverser → Exec Bool) : Stream → Exec Stream :=
  forEach fun t => do return if ← test t then [t] else []

def mapEach (f : Traverser → Exec Value) : Stream → Exec Stream :=
  forEach fun t => do return [t.split (← f t)]

def objects (stream : Stream) : List Value := stream.map (·.object)

end Exec

/-- What a sub-traversal does to a stream. -/
structure Child where
  run : Stream → Exec Stream
  reducing : Bool

namespace Child

def first? (child : Child) (t : Traverser) : Exec (Option Value) := do
  return (← child.run [t]).head?.map (·.object)

def hasResult (child : Child) (t : Traverser) : Exec Bool := do
  return !(← child.run [t]).isEmpty

/-- The first value, or the object itself where there is no sub-traversal. -/
def valueOr (child : Option Child) (fault : ExecutionFault) (t : Traverser) : Exec Value :=
  match child with
  | none => pure t.object
  | some child => do
      match ← child.first? t with
      | some value => pure value
      | none => throw fault

end Child

structure Modulation where
  kind : StepKind
  arguments : List Argument
  children : List Child
  before : Bool

/-- A step with what its sub-traversals and modulators mean. -/
structure Application where
  kind : StepKind
  arguments : List Argument
  children : List Child
  modulations : List Modulation

namespace Application

def modulationsOf (a : Application) (kind : StepKind) : List Modulation :=
  a.modulations.filter (·.kind == kind)

def last? (a : Application) (kind : StepKind) : Option Modulation :=
  (a.modulationsOf kind).getLast?

def bys (a : Application) : List (Option Child) :=
  (a.modulationsOf .by_).map (·.children.head?)

/-- The `by` modulators serve in turn. -/
def byAt (bys : List (Option Child)) (index : Nat) : Option Child :=
  (bys[index % bys.length]?).join

def child (a : Application) (index : Nat) : Exec Child :=
  match a.children[index]? with
  | some child => pure child
  | none => throw (.missingTraversal a.kind index)

end Application

namespace Arguments

def labels (arguments : List Argument) : List String :=
  arguments.filterMap fun
    | .label s => some s
    | _ => none

def text (kind : StepKind) (arguments : List Argument) (index : Nat) : Exec String :=
  match arguments[index]? with
  | some (.label s) => pure s
  | some (.literal (.string s)) => pure s
  | _ => throw (.invalidArgument kind index)

def value (kind : StepKind) (arguments : List Argument) (index : Nat) : Exec Value :=
  match arguments[index]? with
  | some (.literal v) => pure v
  | _ => throw (.invalidArgument kind index)

def integer (kind : StepKind) (arguments : List Argument) (index : Nat) : Exec Int64 :=
  match arguments[index]? with
  | some (.literal (.int i)) => pure i
  | _ => throw (.invalidArgument kind index)

/-- The scope that the arguments begin with, the whole stream if there is none. -/
def scope : List Argument → Scope
  | .scope s :: _ => s
  | _ => .global

/-- An integer after an optional scope. -/
def scopedInteger (kind : StepKind) (arguments : List Argument) (index : Nat) : Exec Int64 :=
  match arguments with
  | .scope _ :: _ => integer kind arguments (index + 1)
  | _ => integer kind arguments index

end Arguments

namespace Application

def labels (a : Application) : List String := Arguments.labels a.arguments

def text (a : Application) (index : Nat) : Exec String := Arguments.text a.kind a.arguments index

def value (a : Application) (index : Nat) : Exec Value := Arguments.value a.kind a.arguments index

def predicate? (a : Application) (index : Nat) : Option Predicate :=
  match a.arguments.drop index with
  | .predicate p :: _ => some p
  | _ => none

def scope (a : Application) : Scope := Arguments.scope a.arguments

def inapplicable {α : Type} (a : Application) (value : Value) : Exec α :=
  throw (.inapplicable a.kind value.typeName)

end Application

namespace Modulation

def text (m : Modulation) (index : Nat) : Exec String := Arguments.text m.kind m.arguments index

end Modulation

/-- What a name stands for: an entry of the object, a side effect, or labelled objects. -/
def World.named? (world : World) (t : Traverser) (pop : Pop) (key : String) : Option Value :=
  match t.object.map?.bind (Dictionary.get? (.string key)) with
  | some value => some value
  | none =>
      match Dictionary.get? key world.sideEffects with
      | some values => some (.list values)
      | none => t.pathValue? pop key

def Exec.named? (t : Traverser) (pop : Pop) (key : String) : Exec (Option Value) := do
  return (← get).named? t pop key

end PropertyGraph
