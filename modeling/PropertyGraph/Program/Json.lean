import PropertyGraph.Json.Reader
import PropertyGraph.Program.Basic

/-!
The JSON form of programs. Structures are objects with their fields in order, variants are tagged
with their names, and maps are lists of pairs, so that keys of any kind and their order survive. A
number that is not finite is written as `null` and cannot be read back.
-/

namespace PropertyGraph

open Json (Reader)

/-! ### Writing -/

def tagged (tag : String) (content : Json) : Json := .object [(tag, content)]

def Family.toJson {α : Type} [Family α] (a : α) : Json := .string (Family.tag a)

def VertexRef.toTaggedJson (v : VertexRef) : Json :=
  .object [("id", .int v.id.toNat), ("label", .string v.label)]

def EdgeRef.toTaggedJson (e : EdgeRef) : Json :=
  .object [("id", .int e.id.toNat), ("label", .string e.label), ("out_v", .int e.source.toNat),
    ("in_v", .int e.target.toNat)]

def Owner.toTaggedJson : Owner → Json
  | .vertex id => tagged "Vertex" (.int id.toNat)
  | .edge id => tagged "Edge" (.int id.toNat)

namespace Value

mutual

def toTaggedJson : Value → Json
  | .null => .string "Null"
  | .bool b => tagged "Bool" (.bool b)
  | .int i => tagged "Int" (.int i.toInt)
  | .float x => tagged "Float" (.float x)
  | .string s => tagged "String" (.string s)
  | .list items => tagged "List" (.array (itemsToTaggedJson items))
  | .map entries => tagged "Map" (.array (entriesToTaggedJson entries))
  | .vertex v => tagged "Vertex" v.toTaggedJson
  | .edge e => tagged "Edge" e.toTaggedJson
  | .property owner key value =>
      tagged "Property" (.object [("owner", owner.toTaggedJson), ("key", .string key),
        ("value", value.toTaggedJson)])

def itemsToTaggedJson : List Value → List Json
  | [] => []
  | item :: rest => item.toTaggedJson :: itemsToTaggedJson rest

def entriesToTaggedJson : List (Value × Value) → List Json
  | [] => []
  | entry :: rest => entryToTaggedJson entry :: entriesToTaggedJson rest

def entryToTaggedJson : Value × Value → Json
  | (key, value) => .array [key.toTaggedJson, value.toTaggedJson]

end

end Value

def Predicate.toTaggedJson : Predicate → Json
  | .eq v => tagged "Eq" v.toTaggedJson
  | .neq v => tagged "Neq" v.toTaggedJson
  | .lt v => tagged "Lt" v.toTaggedJson
  | .lte v => tagged "Lte" v.toTaggedJson
  | .gt v => tagged "Gt" v.toTaggedJson
  | .gte v => tagged "Gte" v.toTaggedJson
  | .within vs => tagged "Within" (.array (Value.itemsToTaggedJson vs))
  | .without vs => tagged "Without" (.array (Value.itemsToTaggedJson vs))
  | .between low high => tagged "Between" (.array [low.toTaggedJson, high.toTaggedJson])
  | .startingWith s => tagged "StartingWith" (.string s)
  | .endingWith s => tagged "EndingWith" (.string s)
  | .containing s => tagged "Containing" (.string s)
  | .and a b => tagged "And" (.array [a.toTaggedJson, b.toTaggedJson])
  | .or a b => tagged "Or" (.array [a.toTaggedJson, b.toTaggedJson])
  | .not a => tagged "Not" a.toTaggedJson

mutual

def Argument.toJson : Argument → Json
  | .literal v => tagged "Literal" v.toTaggedJson
  | .predicate p => tagged "Predicate" p.toTaggedJson
  | .program steps => tagged "Program" (.object [("steps", .array (Step.stepsToJson steps))])
  | .label s => tagged "Label" (.string s)
  | .scope s => tagged "Scope" (Family.toJson s)
  | .order o => tagged "Order" (Family.toJson o)
  | .pop p => tagged "Pop" (Family.toJson p)
  | .column c => tagged "Column" (Family.toJson c)
  | .cardinality c => tagged "Cardinality" (Family.toJson c)
  | .token t => tagged "Token" (Family.toJson t)
  | .function f => tagged "Function" (Family.toJson f)

def Argument.argumentsToJson : List Argument → List Json
  | [] => []
  | argument :: rest => argument.toJson :: Argument.argumentsToJson rest

def Step.toJson : Step → Json
  | .mk kind arguments =>
      .object [("kind", Family.toJson kind),
        ("args", .array (Argument.argumentsToJson arguments))]

def Step.stepsToJson : List Step → List Json
  | [] => []
  | step :: rest => step.toJson :: Step.stepsToJson rest

end

def Program.toJson (p : Program) : Json := .object [("steps", .array (Step.stepsToJson p))]

/-! ### Reading -/

namespace Json.Reader

def identity : Reader Nat := do return (← expectInt 0 (twoTo 64 - 1)).toNat

def vertexId : Reader VertexId := VertexId.mk <$> identity

def edgeId : Reader EdgeId := EdgeId.mk <$> identity

/-- A member of a family by its name, with one level of containers at least for the long form. -/
def member (α : Type) [Family α] [DecidableEq α] : Nat → Reader α
  | 0 => do
      if (← peek) = some '"' then advance; required (Family.ofTag? (← string)) else throw .malformed
  | _ + 1 => variant Family.ofTag? fun _ => throw .mismatch

def vertexRef : Reader VertexRef :=
  expectStructure
    (do
      let id ← expectElement true vertexId
      let label ← expectElement false expectString
      pure ⟨id, label⟩)
    (do
      let (id, label) ← members vertexField (none, none)
      pure ⟨← required id, ← required label⟩)
where
  vertexField (known : Option VertexId × Option String) :
      Reader (Option VertexId × Option String) := do
    let name ← string
    if name == "id" then return (← field known.1 vertexId, known.2)
    else if name == "label" then return (known.1, ← field known.2 expectString)
    else unknownField known

/-- The parts of an edge as far as they are known. -/
structure EdgeParts where
  id : Option EdgeId
  label : Option String
  source : Option VertexId
  target : Option VertexId

def edgeField (known : EdgeParts) : Reader EdgeParts := do
  let name ← string
  if name == "id" then return { known with id := ← field known.id edgeId }
  else if name == "label" then return { known with label := ← field known.label expectString }
  else if name == "out_v" then return { known with source := ← field known.source vertexId }
  else if name == "in_v" then return { known with target := ← field known.target vertexId }
  else unknownField known

def edgeRef : Reader EdgeRef :=
  expectStructure
    (do
      let id ← expectElement true edgeId
      let label ← expectElement false expectString
      let source ← expectElement false vertexId
      let target ← expectElement false vertexId
      pure ⟨id, label, source, target⟩)
    (do
      let known ← members edgeField ⟨none, none, none, none⟩
      pure ⟨← required known.id, ← required known.label, ← required known.source,
        ← required known.target⟩)

def owner : Nat → Reader Owner
  | 0 => throw .malformed
  | _ + 1 => variant (fun _ => none) fun tag =>
      if tag == "Vertex" then Owner.vertex <$> vertexId
      else if tag == "Edge" then Owner.edge <$> edgeId
      else throw .mismatch

structure PropertyParts where
  owner : Option Owner
  key : Option String
  value : Option Value

def propertyField (ownerReader : Reader Owner) (valueReader : Reader Value)
    (known : PropertyParts) : Reader PropertyParts := do
  let name ← string
  if name == "owner" then return { known with owner := ← field known.owner ownerReader }
  else if name == "key" then return { known with key := ← field known.key expectString }
  else if name == "value" then return { known with value := ← field known.value valueReader }
  else unknownField known

def propertyRef (ownerReader : Reader Owner) (valueReader : Reader Value) : Reader Value :=
  expectStructure
    (do
      let owner ← expectElement true ownerReader
      let key ← expectElement false expectString
      let value ← expectElement false valueReader
      pure (.property owner key value))
    (do
      let known ← members (propertyField ownerReader valueReader) ⟨none, none, none⟩
      pure (.property (← required known.owner) (← required known.key) (← required known.value)))

def float : Reader Binary64 := do
  match ← expectNumber with
  | .int i => pure (Binary64.ofInt i)
  | .float x => pure x

def int64 : Reader Int64 := do return Int64.ofInt (← expectInt (-(twoTo 63 : Int)) (twoTo 63 - 1))

def bareValue (tag : String) : Option Value := if tag == "Null" then some .null else none

/-- The content of a value that holds no other. -/
def scalar (tag : String) : Reader Value := do
  if tag == "Bool" then Value.bool <$> expectBool
  else if tag == "Int" then Value.int <$> int64
  else if tag == "Float" then Value.float <$> float
  else if tag == "String" then Value.string <$> expectString
  else throw .mismatch

/-- The content of a value, given readers of the values and of the entries inside. -/
def valueContent (item : Reader Value) (entry : Reader (Value × Value)) (ownerReader : Reader Owner)
    (tag : String) : Reader Value :=
  if tag == "List" then Value.list <$> expectArray item
  else if tag == "Map" then do return .map (Dictionary.ofEntries (← expectArray entry))
  else if tag == "Vertex" then Value.vertex <$> vertexRef
  else if tag == "Edge" then Value.edge <$> edgeRef
  else if tag == "Property" then propertyRef ownerReader item
  else scalar tag

/-- A reader within one more bracket, which takes one level. -/
def bracketed (depth : Nat) (content : Nat → Reader α) : Reader α :=
  match depth with
  | 0 => throw .malformed
  | depth + 1 => content depth

/-- A value with at most so many containers inside one another. -/
def taggedValue : Nat → Reader Value
  | 0 => do
      if (← peek) = some '"' then advance; required (bareValue (← string)) else throw .malformed
  | 1 => variant bareValue scalar
  | depth + 2 => variant bareValue (valueContent (taggedValue depth)
      (match depth with
        | 0 => throw .malformed
        | depth + 1 => expectPair (taggedValue depth) (taggedValue depth))
      (owner depth))

/-- The predicate that a tag makes of one value. -/
def comparison? (tag : String) : Option (Value → Predicate) :=
  if tag == "Eq" then some .eq
  else if tag == "Neq" then some .neq
  else if tag == "Lt" then some .lt
  else if tag == "Lte" then some .lte
  else if tag == "Gt" then some .gt
  else if tag == "Gte" then some .gte
  else none

def textPredicate (tag : String) : Reader Predicate := do
  if tag == "StartingWith" then Predicate.startingWith <$> expectString
  else if tag == "EndingWith" then Predicate.endingWith <$> expectString
  else if tag == "Containing" then Predicate.containing <$> expectString
  else throw .mismatch

/-- The content of a predicate, given readers of one and of two predicates inside. -/
def predicateContent (depth : Nat) (one : Reader Predicate) (two : Reader (Predicate × Predicate))
    (tag : String) : Reader Predicate :=
  match comparison? tag with
  | some make => make <$> taggedValue depth
  | none =>
      if tag == "Within" then
        bracketed depth fun depth => Predicate.within <$> expectArray (taggedValue depth)
      else if tag == "Without" then
        bracketed depth fun depth => Predicate.without <$> expectArray (taggedValue depth)
      else if tag == "Between" then
        bracketed depth fun depth =>
          (fun (low, high) => .between low high) <$> expectPair (taggedValue depth) (taggedValue depth)
      else if tag == "Not" then Predicate.not <$> one
      else if tag == "And" then (fun (a, b) => .and a b) <$> two
      else if tag == "Or" then (fun (a, b) => .or a b) <$> two
      else textPredicate tag

def taggedPredicate : Nat → Reader Predicate
  | 0 => throw .malformed
  | depth + 1 => variant (fun _ => none) (predicateContent depth (taggedPredicate depth)
      (match depth with
        | 0 => throw .malformed
        | depth + 1 => expectPair (taggedPredicate depth) (taggedPredicate depth)))

/-- The steps of a program, in a field of that name or alone in an array. -/
def programOf (step : Reader Step) : Reader Program :=
  expectStructure (expectElement true (expectArray step))
    (do required (← members (stepsField step) none))
where
  stepsField (step : Reader Step) (known : Option Program) : Reader (Option Program) := do
    let name ← string
    if name == "steps" then field known (expectArray step) else unknownField known

def stepOf (kind : Reader StepKind) (argument : Reader Argument) : Reader Step :=
  expectStructure
    (do
      let kind ← expectElement true kind
      let arguments ← expectElement false (expectArray argument)
      pure (.mk kind arguments))
    (do
      let (kind, arguments) ← members stepField (none, none)
      pure (.mk (← required kind) (← required arguments)))
where
  stepField (known : Option StepKind × Option (List Argument)) :
      Reader (Option StepKind × Option (List Argument)) := do
    let name ← string
    if name == "kind" then return (← field known.1 kind, known.2)
    else if name == "args" then return (known.1, ← field known.2 (expectArray argument))
    else unknownField known

/-- The content of an argument, given a reader of the program inside. -/
def argumentContent (depth : Nat) (program : Reader Program) (tag : String) : Reader Argument :=
  if tag == "Literal" then Argument.literal <$> taggedValue depth
  else if tag == "Predicate" then Argument.predicate <$> taggedPredicate depth
  else if tag == "Program" then Argument.program <$> program
  else if tag == "Label" then Argument.label <$> expectString
  else if tag == "Scope" then Argument.scope <$> member Scope depth
  else if tag == "Order" then Argument.order <$> member SortOrder depth
  else if tag == "Pop" then Argument.pop <$> member Pop depth
  else if tag == "Column" then Argument.column <$> member Column depth
  else if tag == "Cardinality" then Argument.cardinality <$> member Cardinality depth
  else if tag == "Token" then Argument.token <$> member ElementToken depth
  else if tag == "Function" then Argument.function <$> member Function depth
  else throw .mismatch

/-- An argument; a program inside takes two more levels, a step of it another two. -/
def argument : Nat → Reader Argument
  | 0 => throw .malformed
  | depth + 1 => variant (fun _ => none) (argumentContent depth
      (match depth with
        | 0 | 1 => throw .malformed
        | 2 | 3 => programOf (throw .malformed)
        | depth + 4 => programOf (stepOf (member StepKind (depth + 1)) (argument depth))))

def step (depth : Nat) : Reader Step :=
  stepOf (member StepKind (depth - 1)) (argument (depth - 2))

def program : Reader Program := programOf (step (depthLimit - 2))

end Json.Reader

def Program.ofJson? (text : String) : Option Program :=
  match Json.Reader.document Json.Reader.program text with
  | .ok p => some p
  | .error _ => none

end PropertyGraph
