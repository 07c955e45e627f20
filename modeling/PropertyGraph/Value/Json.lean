import PropertyGraph.Value.Text
import PropertyGraph.Json.Basic

/-!
Values as plain JSON. Maps become objects whose names are the texts of the keys, elements and
properties become objects of their parts; an integer that fits 64 bits comes back as such and any
other number in double precision.
-/

namespace PropertyGraph.Value

mutual

def toJson : Value → Json
  | .null => .null
  | .bool b => .bool b
  | .int i => .int i.toInt
  | .float x => if x.isFinite then .float x else .null
  | .string s => .string s
  | .list items => .array (itemsToJson items)
  | .map entries => Json.sorted (entriesToJson entries)
  | .vertex v => Json.sorted [("id", .int v.id.toNat), ("label", .string v.label)]
  | .edge e =>
      Json.sorted [("id", .int e.id.toNat), ("label", .string e.label),
        ("outV", .int e.source.toNat), ("inV", .int e.target.toNat)]
  | .property _ key value => Json.sorted [("key", .string key), ("value", value.toJson)]

def itemsToJson : List Value → List Json
  | [] => []
  | item :: rest => item.toJson :: itemsToJson rest

def entriesToJson : List (Value × Value) → List (String × Json)
  | [] => []
  | entry :: rest => entryToJson entry :: entriesToJson rest

def entryToJson : Value × Value → String × Json
  | (key, value) => (key.text, value.toJson)

end

mutual

def ofJson : Json → Value
  | .null => .null
  | .bool b => .bool b
  | .int i =>
      match int64? i with
      | some n => .int n
      | none => .float (Binary64.ofInt i)
  | .float x => .float x
  | .string s => .string s
  | .array items => .list (itemsOfJson items)
  | .object fields => .map (Dictionary.ofEntries (fieldsOfJson fields))

def itemsOfJson : List Json → List Value
  | [] => []
  | item :: rest => ofJson item :: itemsOfJson rest

def fieldsOfJson : List (String × Json) → List (Value × Value)
  | [] => []
  | field :: rest => fieldOfJson field :: fieldsOfJson rest

def fieldOfJson : String × Json → Value × Value
  | (name, value) => (.string name, ofJson value)

end

end PropertyGraph.Value
