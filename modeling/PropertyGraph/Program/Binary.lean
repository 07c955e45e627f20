import PropertyGraph.Program.Basic

/-!
The binary form of programs: fixed-width little-endian numbers, 64-bit lengths, 32-bit variant
numbers in the order of declaration. `encode` writes, `decode` takes a value from the front of the
input and leaves the rest; what follows a program is not looked at.
-/

namespace PropertyGraph.Binary

abbrev Byte := UInt8

abbrev Decoder (α : Type) := StateT (List Byte) Option α

/-! ### Numbers and texts -/

/-- The lowest bytes of a number, least significant first. -/
def littleEndian : Nat → Nat → List Byte
  | 0, _ => []
  | width + 1, n => UInt8.ofNat n :: littleEndian width (n / 256)

def ofLittleEndian : List Byte → Nat
  | [] => 0
  | byte :: rest => byte.toNat + 256 * ofLittleEndian rest

def takeBytes (count : Nat) : Decoder (List Byte) := fun input =>
  let taken := input.take count
  if taken.length = count then some (taken, input.drop count) else none

def decodeNat (width : Nat) : Decoder Nat := ofLittleEndian <$> takeBytes width

def encodeLength (n : Nat) : List Byte := littleEndian 8 n

def encodeVariant (n : Nat) : List Byte := littleEndian 4 n

def encodeBool (b : Bool) : List Byte := [if b then 1 else 0]

def decodeBool : Decoder Bool := do
  match ← decodeNat 1 with
  | 0 => pure false
  | 1 => pure true
  | _ => failure

def encodeInt64 (i : Int64) : List Byte := littleEndian 8 i.toUInt64.toNat

def decodeInt64 : Decoder Int64 := do return (UInt64.ofNat (← decodeNat 8)).toInt64

def encodeFloat (x : Binary64) : List Byte := littleEndian 8 x.bits.toNat

def decodeFloat : Decoder Binary64 := do return ⟨UInt64.ofNat (← decodeNat 8)⟩

def encodeString (s : String) : List Byte :=
  let bytes := s.toUTF8.data.toList
  encodeLength bytes.length ++ bytes

/-- Refuses bytes that are no text. -/
def decodeString : Decoder String := do
  let bytes ← takeBytes (← decodeNat 8)
  match String.fromUTF8? ⟨bytes.toArray⟩ with
  | some s => pure s
  | none => failure

def decodeMany (item : Decoder α) : Nat → Decoder (List α)
  | 0 => pure []
  | count + 1 => do
      let first ← item
      let rest ← decodeMany item count
      pure (first :: rest)

def decodeList (item : Decoder α) : Decoder (List α) := do decodeMany item (← decodeNat 8)

def encodeMember {α : Type} [Family α] [DecidableEq α] (a : α) : List Byte :=
  encodeVariant (Family.number a)

def decodeMember (α : Type) [Family α] [DecidableEq α] : Decoder α := do
  match Family.ofNumber? (← decodeNat 4) with
  | some a => pure a
  | none => failure

/-! ### Values -/

def encodeVertexId (id : VertexId) : List Byte := littleEndian 8 id.toNat

def decodeVertexId : Decoder VertexId := VertexId.mk <$> decodeNat 8

def encodeEdgeId (id : EdgeId) : List Byte := littleEndian 8 id.toNat

def decodeEdgeId : Decoder EdgeId := EdgeId.mk <$> decodeNat 8

def encodeVertexRef (v : VertexRef) : List Byte := encodeVertexId v.id ++ encodeString v.label

def decodeVertexRef : Decoder VertexRef := do
  let id ← decodeVertexId
  let label ← decodeString
  pure ⟨id, label⟩

def encodeEdgeRef (e : EdgeRef) : List Byte :=
  encodeEdgeId e.id ++ encodeString e.label ++ encodeVertexId e.source ++ encodeVertexId e.target

def decodeEdgeRef : Decoder EdgeRef := do
  let id ← decodeEdgeId
  let label ← decodeString
  let source ← decodeVertexId
  let target ← decodeVertexId
  pure ⟨id, label, source, target⟩

def encodeOwner : Owner → List Byte
  | .vertex id => encodeVariant 0 ++ encodeVertexId id
  | .edge id => encodeVariant 1 ++ encodeEdgeId id

def decodeOwner : Decoder Owner := do
  match ← decodeNat 4 with
  | 0 => Owner.vertex <$> decodeVertexId
  | 1 => Owner.edge <$> decodeEdgeId
  | _ => failure

mutual

def encodeValue : Value → List Byte
  | .null => encodeVariant 0
  | .bool b => encodeVariant 1 ++ encodeBool b
  | .int i => encodeVariant 2 ++ encodeInt64 i
  | .float x => encodeVariant 3 ++ encodeFloat x
  | .string s => encodeVariant 4 ++ encodeString s
  | .list items => encodeVariant 5 ++ encodeLength items.length ++ encodeItems items
  | .map entries => encodeVariant 6 ++ encodeLength entries.length ++ encodeEntries entries
  | .vertex v => encodeVariant 7 ++ encodeVertexRef v
  | .edge e => encodeVariant 8 ++ encodeEdgeRef e
  | .property owner key value =>
      encodeVariant 9 ++ encodeOwner owner ++ encodeString key ++ encodeValue value

def encodeItems : List Value → List Byte
  | [] => []
  | item :: rest => encodeValue item ++ encodeItems rest

def encodeEntries : List (Value × Value) → List Byte
  | [] => []
  | entry :: rest => encodeEntry entry ++ encodeEntries rest

def encodeEntry : Value × Value → List Byte
  | (key, value) => encodeValue key ++ encodeValue value

end

/-- Fuel bounds the nesting; a level takes at least four bytes. -/
def decodeValue : Nat → Decoder Value
  | 0 => failure
  | fuel + 1 => do
      match ← decodeNat 4 with
      | 0 => pure .null
      | 1 => Value.bool <$> decodeBool
      | 2 => Value.int <$> decodeInt64
      | 3 => Value.float <$> decodeFloat
      | 4 => Value.string <$> decodeString
      | 5 => Value.list <$> decodeList (decodeValue fuel)
      | 6 => do
          let entries ← decodeList do
            let key ← decodeValue fuel
            let value ← decodeValue fuel
            pure (key, value)
          pure (.map (Dictionary.ofEntries entries))
      | 7 => Value.vertex <$> decodeVertexRef
      | 8 => Value.edge <$> decodeEdgeRef
      | 9 => do
          let owner ← decodeOwner
          let key ← decodeString
          let value ← decodeValue fuel
          pure (.property owner key value)
      | _ => failure

/-! ### Predicates -/

def encodeValues (vs : List Value) : List Byte := encodeLength vs.length ++ encodeItems vs

def encodePredicate : Predicate → List Byte
  | .eq v => encodeVariant 0 ++ encodeValue v
  | .neq v => encodeVariant 1 ++ encodeValue v
  | .lt v => encodeVariant 2 ++ encodeValue v
  | .lte v => encodeVariant 3 ++ encodeValue v
  | .gt v => encodeVariant 4 ++ encodeValue v
  | .gte v => encodeVariant 5 ++ encodeValue v
  | .within vs => encodeVariant 6 ++ encodeValues vs
  | .without vs => encodeVariant 7 ++ encodeValues vs
  | .between low high => encodeVariant 8 ++ encodeValue low ++ encodeValue high
  | .startingWith s => encodeVariant 9 ++ encodeString s
  | .endingWith s => encodeVariant 10 ++ encodeString s
  | .containing s => encodeVariant 11 ++ encodeString s
  | .and a b => encodeVariant 12 ++ encodePredicate a ++ encodePredicate b
  | .or a b => encodeVariant 13 ++ encodePredicate a ++ encodePredicate b
  | .not a => encodeVariant 14 ++ encodePredicate a

def decodePredicate : Nat → Decoder Predicate
  | 0 => failure
  | fuel + 1 => do
      match ← decodeNat 4 with
      | 0 => Predicate.eq <$> decodeValue fuel
      | 1 => Predicate.neq <$> decodeValue fuel
      | 2 => Predicate.lt <$> decodeValue fuel
      | 3 => Predicate.lte <$> decodeValue fuel
      | 4 => Predicate.gt <$> decodeValue fuel
      | 5 => Predicate.gte <$> decodeValue fuel
      | 6 => Predicate.within <$> decodeList (decodeValue fuel)
      | 7 => Predicate.without <$> decodeList (decodeValue fuel)
      | 8 => do
          let low ← decodeValue fuel
          let high ← decodeValue fuel
          pure (.between low high)
      | 9 => Predicate.startingWith <$> decodeString
      | 10 => Predicate.endingWith <$> decodeString
      | 11 => Predicate.containing <$> decodeString
      | 12 => do
          let a ← decodePredicate fuel
          let b ← decodePredicate fuel
          pure (.and a b)
      | 13 => do
          let a ← decodePredicate fuel
          let b ← decodePredicate fuel
          pure (.or a b)
      | 14 => Predicate.not <$> decodePredicate fuel
      | _ => failure

/-! ### Programs -/

mutual

def encodeArgument : Argument → List Byte
  | .literal v => encodeVariant 0 ++ encodeValue v
  | .predicate p => encodeVariant 1 ++ encodePredicate p
  | .program steps => encodeVariant 2 ++ encodeLength steps.length ++ encodeSteps steps
  | .label s => encodeVariant 3 ++ encodeString s
  | .scope s => encodeVariant 4 ++ encodeMember s
  | .order o => encodeVariant 5 ++ encodeMember o
  | .pop p => encodeVariant 6 ++ encodeMember p
  | .column c => encodeVariant 7 ++ encodeMember c
  | .cardinality c => encodeVariant 8 ++ encodeMember c
  | .token t => encodeVariant 9 ++ encodeMember t
  | .function f => encodeVariant 10 ++ encodeMember f

def encodeArguments : List Argument → List Byte
  | [] => []
  | argument :: rest => encodeArgument argument ++ encodeArguments rest

def encodeStep : Step → List Byte
  | .mk kind arguments =>
      encodeMember kind ++ encodeLength arguments.length ++ encodeArguments arguments

def encodeSteps : List Step → List Byte
  | [] => []
  | step :: rest => encodeStep step ++ encodeSteps rest

end

def decodeStepOf (argument : Decoder Argument) : Decoder Step := do
  let kind ← decodeMember StepKind
  let arguments ← decodeList argument
  pure (.mk kind arguments)

def decodeArgument : Nat → Decoder Argument
  | 0 => failure
  | fuel + 1 => do
      match ← decodeNat 4 with
      | 0 => Argument.literal <$> decodeValue fuel
      | 1 => Argument.predicate <$> decodePredicate fuel
      | 2 => Argument.program <$> decodeList (decodeStepOf (decodeArgument fuel))
      | 3 => Argument.label <$> decodeString
      | 4 => Argument.scope <$> decodeMember Scope
      | 5 => Argument.order <$> decodeMember SortOrder
      | 6 => Argument.pop <$> decodeMember Pop
      | 7 => Argument.column <$> decodeMember Column
      | 8 => Argument.cardinality <$> decodeMember Cardinality
      | 9 => Argument.token <$> decodeMember ElementToken
      | 10 => Argument.function <$> decodeMember Function
      | _ => failure

def encode (p : Program) : List Byte := encodeLength p.length ++ encodeSteps p

def decode : Decoder Program := do
  decodeList (decodeStepOf (decodeArgument ((← get).length + 1)))

end PropertyGraph.Binary

namespace PropertyGraph.Program

def toBytes (p : Program) : List UInt8 := Binary.encode p

def ofBytes? (bytes : List UInt8) : Option Program := (Binary.decode.run bytes).map (·.1)

end PropertyGraph.Program
