import PropertyGraph.Cypher.Scope
import PropertyGraph.Run.Fault

/-!
Rows as they are returned: unknown values become null, and elements become maps that tell their
kind, their id and their label before their properties.
-/

namespace PropertyGraph

/-- Values by column. -/
abbrev Row := Dictionary String Value

namespace Normalize

def idKey : Value := .string "~id"

def labelKey : Value := .string "~label"

def entry? (key : String) (entries : List (Value × Value)) : Value :=
  (Dictionary.get? (.string key) entries).getD .null

def isElement (entries : List (Value × Value)) : Bool :=
  Dictionary.has idKey entries && Dictionary.has labelKey entries

/-- The map of an element, from its map of properties as it is and with values made ready. -/
def elementMap (kind : String) (raw ready extra : List (Value × Value)) : Value :=
  let head : List (Value × Value) :=
    [(.string "_type", .string kind),
      (.string "_id", (Dictionary.get? idKey raw).getD .null),
      (.string "_label", (Dictionary.get? labelKey raw).getD .null)]
  .map (Dictionary.putAll (Dictionary.ofEntries (head ++ extra))
    (Dictionary.remove labelKey (Dictionary.remove idKey ready)))

def endsOf (entries : List (Value × Value)) : List (Value × Value) :=
  [(.string "_inV", entry? Cypher.targetKey entries),
    (.string "_outV", entry? Cypher.sourceKey entries)]

def vertexMap (v : VertexRef) : Value :=
  .record [("_type", .string "node"), ("_id", .ofNat v.id.toNat), ("_label", .string v.label)]

def edgeMap (e : EdgeRef) : Value :=
  .record [("_type", .string "relationship"), ("_id", .ofNat e.id.toNat),
    ("_label", .string e.label), ("_inV", .ofNat e.target.toNat),
    ("_outV", .ofNat e.source.toNat)]

mutual

def value : Value → Value
  | .string s => if s = Value.nullText then .null else .string s
  | .list items => .list (values items)
  | .map entries =>
      match relationship? (endsOf entries) entries with
      | some relationship => relationship
      | none =>
          if isElement entries then elementMap "node" entries (readyEntries entries) []
          else .map (readyEntries entries)
  | .vertex v => vertexMap v
  | .edge e => edgeMap e
  | .property _ _ v => value v
  | .null => .null
  | .bool b => .bool b
  | .int i => .int i
  | .float x => .float x

def values : List Value → List Value
  | [] => []
  | v :: rest => value v :: values rest

def readyEntries : List (Value × Value) → List (Value × Value)
  | [] => []
  | entry :: rest => readyEntry entry :: readyEntries rest

def readyEntry : Value × Value → Value × Value
  | (key, v) => (key, value v)

/-- The relationship that entries are the projection of, if they are one. -/
def relationship? (ends : List (Value × Value)) : List (Value × Value) → Option Value
  | [] => none
  | entry :: rest =>
      match relationshipEntry? ends entry with
      | some found => some found
      | none => relationship? ends rest

def relationshipEntry? (ends : List (Value × Value)) : Value × Value → Option Value
  | (key, .map edge) =>
      if key = .string Cypher.elementKey then
        some (elementMap "relationship" edge (readyEntries edge) ends)
      else none
  | (key, v) => if key = .string Cypher.elementKey then some (value v) else none

end

def columns : List (Value × Value) → Except ExecutionFault (List (String × Value))
  | [] => .ok []
  | (.string column, v) :: rest => do return (column, value v) :: (← columns rest)
  | (other, _) :: _ => .error (.columnNotText other.typeName)

def row : Value → Except ExecutionFault Row
  | .map entries => do return Dictionary.ofEntries (← columns entries)
  | other => .error (.rowNotMap other.typeName)

def rows : List Value → Except ExecutionFault (List Row)
  | [] => .ok []
  | v :: rest => do
      let first ← row v
      return first :: (← rows rest)

end Normalize

end PropertyGraph
