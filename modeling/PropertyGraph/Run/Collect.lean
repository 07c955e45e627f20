import PropertyGraph.Number.Arithmetic
import PropertyGraph.Run.Filter
import PropertyGraph.Value.Order

/-!
Steps that compute values: projections of one traverser, and reductions of many.
-/

namespace PropertyGraph

namespace Reduce

def numbers (values : List Value) : List Binary64 := values.filterMap Value.number?

def floatSum (values : List Value) : Binary64 := (numbers values).foldl Binary64.add (.zero true)

/-- The exact sum of integers if every partial sum fits 64 bits. -/
def integerSum? : Int64 → List Value → Option Int64
  | total, [] => some total
  | total, .int i :: rest =>
      match int64? (total.toInt + i.toInt) with
      | some next => integerSum? next rest
      | none => none
  | _, _ :: _ => none

def sum (values : List Value) : Value :=
  match integerSum? 0 values with
  | some total => .int total
  | none => .float (floatSum values)

/-- The first of the least values. -/
def least? : List Value → Option Value
  | [] => none
  | first :: rest => some (rest.foldl (fun best v => if v.order best == .lt then v else best) first)

/-- The last of the greatest values. -/
def greatest? : List Value → Option Value
  | [] => none
  | first :: rest => some (rest.foldl (fun best v => if v.order best == .lt then best else v) first)

def mean? (values : List Value) : Option Value :=
  if values.isEmpty then none
  else some (.float ((floatSum values).div (Binary64.ofInt values.length)))

/-- Sums and means want numbers; the least and the greatest value can be of any kind. -/
def reduce? (kind : StepKind) (values : List Value) : Except ExecutionFault (Option Value) :=
  match kind with
  | .min => .ok (least? values)
  | .max => .ok (greatest? values)
  | kind =>
      match values.find? fun v => !v.isNumber with
      | some odd => .error (.notNumber kind odd.typeName)
      | none => .ok (if kind = .sum then some (sum values) else mean? values)

end Reduce

namespace Exec

def idAndLabel (value : Value) : Exec (Nat × String) :=
  match value with
  | .vertex v => pure (v.id.toNat, v.label)
  | .edge e => pure (e.id.toNat, e.label)
  | other => throw (.notElement other.typeName)

def ownerOf (value : Value) : Exec Owner :=
  match value with
  | .vertex v => pure (.vertex v.id)
  | .edge e => pure (.edge e.id)
  | other => throw (.notElement other.typeName)

end Exec

namespace Application

open Exec

def projectColumns (bys : List (Option Child)) (t : Traverser) :
    Nat → List String → Exec (List (String × Value))
  | _, [] => pure []
  | index, key :: rest => do
      let value ← Child.valueOr (byAt bys index) (.projectWithoutValue key) t
      return (key, value) :: (← projectColumns bys t (index + 1) rest)

def project (a : Application) : Stream → Exec Stream :=
  mapEach fun t => do return .record (← projectColumns a.bys t 0 a.labels)

def columnOf (column : Column) (entries : List (Value × Value)) : Value :=
  match column with
  | .keys => .list (entries.map (·.1))
  | .values => .list (entries.map (·.2))

/-- The values of the keys, or none as soon as one is missing. -/
def selectKeys (bys : List (Option Child)) (pop : Pop) (t : Traverser) :
    Nat → List String → Exec (Option (List (String × Value)))
  | _, [] => pure (some [])
  | index, key :: rest => do
      match ← named? t pop key with
      | none => return none
      | some value =>
          let found ← match byAt bys index with
            | none => pure (some value)
            | some child => child.first? (t.split value)
          match found with
          | none => return none
          | some value =>
              return (← selectKeys bys pop t (index + 1) rest).map ((key, value) :: ·)

def selectOne (a : Application) (pop : Pop) (keys : List String) (t : Traverser) : Exec Stream := do
  match ← selectKeys a.bys pop t 0 keys with
  | none => return []
  | some [(_, value)] => return [t.split value]
  | some entries => return [t.split (.record entries)]

def select (a : Application) (stream : Stream) : Exec Stream :=
  match a.arguments with
  | .column column :: _ =>
      mapEach (fun t =>
        match t.object with
        | .map entries => pure (columnOf column entries)
        | other => a.inapplicable other) stream
  | .pop pop :: _ => do
      let key ← a.text 1
      forEach (a.selectOne pop [key]) stream
  | _ => forEach (a.selectOne .last a.labels) stream

def keyed (fault : ExecutionFault) (child : Option Child) : Stream → Exec (List (Value × Traverser))
  | [] => pure []
  | t :: rest => do
      let key ← Child.valueOr child fault t
      return (key, t) :: (← keyed fault child rest)

/-- Puts a traverser into the group of its key; groups are in order of their first members. -/
def intoGroup (groups : Dictionary Value Stream) (entry : Value × Traverser) :
    Dictionary Value Stream :=
  Dictionary.put entry.1 ((Dictionary.get? entry.1 groups).getD [] ++ [entry.2]) groups

def groupValue (child : Option Child) (members : Stream) : Exec Value :=
  match child with
  | none => pure (.list (objects members))
  | some child => do
      let values := objects (← child.run members)
      return if child.reducing then values.headD (.list []) else .list values

def groupValues (child : Option Child) : Dictionary Value Stream → Exec (List (Value × Value))
  | [] => pure []
  | (key, members) :: rest => do
      let value ← groupValue child members
      return (key, value) :: (← groupValues child rest)

def group (a : Application) (stream : Stream) : Exec Stream := do
  let entries ← keyed .groupWithoutKey (a.bys[0]?).join stream
  let groups := entries.foldl intoGroup []
  return [.start (.map (← groupValues (a.bys[1]?).join groups))]

def fold (stream : Stream) : Exec Stream := return [.start (.list (objects stream))]

def parts : Value → List Value
  | .list items => items
  | .map entries => entries.map fun entry => .map [entry]
  | other => [other]

def unfold : Stream → Exec Stream := forEach fun t => return (parts t.object).map t.split

def localCount : Value → Nat
  | .list items => items.length
  | .map entries => entries.length
  | _ => 1

def count (a : Application) (stream : Stream) : Exec Stream :=
  match a.scope with
  | .global => return [.start (.ofNat stream.length)]
  | .local_ => mapEach (fun t => return .ofNat (localCount t.object)) stream

def reduceItems : Value → List Value
  | .list items => items
  | other => [other]

def reduce (a : Application) (stream : Stream) : Exec Stream :=
  match a.scope with
  | .global => do
      let value ← liftFault id (Reduce.reduce? a.kind (objects stream))
      return (value.map .start).toList
  | .local_ => forEach (fun t => do
      let value ← liftFault id (Reduce.reduce? a.kind (reduceItems t.object))
      return (value.map t.split).toList) stream

def path : Stream → Exec Stream := mapEach fun t => return .list t.path

def valueMap (a : Application) : Stream → Exec Stream :=
  mapEach fun t => do
    let tokens ←
      if a.arguments.head? = some (.literal (.bool true)) then do
        let (id, label) ← idAndLabel t.object
        pure [("~id", .ofNat id), ("~label", .string label)]
      else pure []
    return .record (tokens ++ (← propertiesOf t.object))

def values (a : Application) : Stream → Exec Stream :=
  forEach fun t => do
    let known ← propertiesOf t.object
    return if a.labels.isEmpty then known.values.map t.split
      else (a.labels.filterMap fun key => Dictionary.get? key known).map t.split

def properties (a : Application) : Stream → Exec Stream :=
  forEach fun t => do
    let owner ← ownerOf t.object
    let known ← propertiesOf t.object
    let wanted := known.filter fun entry => a.labels.isEmpty || a.labels.contains entry.1
    return wanted.map fun (key, value) => t.split (.property owner key value)

def propertyPart (a : Application) (part : String → Value → Value) : Stream → Exec Stream :=
  mapEach fun t =>
    match t.object with
    | .property _ key value => pure (part key value)
    | other => a.inapplicable other

def propertyValue (a : Application) : Stream → Exec Stream :=
  a.propertyPart fun _ value => value

def key (a : Application) : Stream → Exec Stream := a.propertyPart fun key _ => .string key

def label (a : Application) : Stream → Exec Stream :=
  mapEach fun t =>
    match t.object with
    | .property _ key _ => pure (.string key)
    | other =>
        match other.elementLabel? with
        | some label => pure (.string label)
        | none => a.inapplicable other

def id : Stream → Exec Stream := mapEach fun t => do return .ofNat (← idAndLabel t.object).1

end Application

end PropertyGraph
