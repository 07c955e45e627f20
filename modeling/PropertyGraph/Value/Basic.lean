import PropertyGraph.Number.Binary64
import PropertyGraph.Dictionary

/-!
The values that flow through queries and are stored as properties. Equality is structural: numbers
of different kinds differ, floating-point numbers are equal bit by bit, and maps entry by entry in
order.
-/

namespace PropertyGraph

structure VertexId where
  toNat : Nat
deriving DecidableEq

structure EdgeId where
  toNat : Nat
deriving DecidableEq

structure VertexRef where
  id : VertexId
  label : String
deriving DecidableEq

structure EdgeRef where
  id : EdgeId
  label : String
  source : VertexId
  target : VertexId
deriving DecidableEq

/-- The element that a property belongs to. -/
inductive Owner where
  | vertex (id : VertexId)
  | edge (id : EdgeId)
deriving DecidableEq

inductive Value where
  | null
  | bool (b : Bool)
  | int (i : Int64)
  | float (x : Binary64)
  | string (s : String)
  | list (items : List Value)
  | map (entries : List (Value × Value))
  | vertex (v : VertexRef)
  | edge (e : EdgeRef)
  | property (owner : Owner) (key : String) (value : Value)

mutual

def Value.same : Value → Value → Bool
  | .null, .null => true
  | .bool a, .bool b => a == b
  | .int a, .int b => a == b
  | .float a, .float b => a == b
  | .string a, .string b => a == b
  | .list a, .list b => Value.sameItems a b
  | .map a, .map b => Value.sameEntries a b
  | .vertex a, .vertex b => a == b
  | .edge a, .edge b => a == b
  | .property o k v, .property p l w => o == p && k == l && v.same w
  | _, _ => false
termination_by structural v => v

def Value.sameItems : List Value → List Value → Bool
  | [], [] => true
  | a :: as, b :: bs => a.same b && Value.sameItems as bs
  | _, _ => false
termination_by structural v => v

def Value.sameEntries : List (Value × Value) → List (Value × Value) → Bool
  | [], [] => true
  | a :: as, b :: bs => Value.sameEntry a b && Value.sameEntries as bs
  | _, _ => false
termination_by structural v => v

def Value.sameEntry : Value × Value → Value × Value → Bool
  | (a, b), (c, d) => a.same c && b.same d
termination_by structural v => v

end

mutual

theorem Value.same_iff : (a b : Value) → (a.same b = true ↔ a = b)
  | .null, b => by cases b <;> simp [Value.same]
  | .bool _, b => by cases b <;> simp [Value.same]
  | .int _, b => by cases b <;> simp [Value.same]
  | .float _, b => by cases b <;> simp [Value.same]
  | .string _, b => by cases b <;> simp [Value.same]
  | .list a, b => by cases b <;> simp [Value.same, Value.sameItems_iff]
  | .map a, b => by cases b <;> simp [Value.same, Value.sameEntries_iff]
  | .vertex _, b => by cases b <;> simp [Value.same]
  | .edge _, b => by cases b <;> simp [Value.same]
  | .property _ _ v, b => by cases b <;> simp [Value.same, Value.same_iff v, and_assoc]
termination_by structural v => v

theorem Value.sameItems_iff : (a b : List Value) → (Value.sameItems a b = true ↔ a = b)
  | [], b => by cases b <;> simp [Value.sameItems]
  | _ :: _, [] => by simp [Value.sameItems]
  | a :: as, b :: bs => by
      simp [Value.sameItems, Value.same_iff a b, Value.sameItems_iff as bs]
termination_by structural v => v

theorem Value.sameEntries_iff :
    (a b : List (Value × Value)) → (Value.sameEntries a b = true ↔ a = b)
  | [], b => by cases b <;> simp [Value.sameEntries]
  | _ :: _, [] => by simp [Value.sameEntries]
  | a :: as, b :: bs => by
      simp [Value.sameEntries, Value.sameEntry_iff a b, Value.sameEntries_iff as bs]
termination_by structural v => v

theorem Value.sameEntry_iff : (a b : Value × Value) → (Value.sameEntry a b = true ↔ a = b)
  | (a, b), (c, d) => by simp [Value.sameEntry, Value.same_iff a c, Value.same_iff b d]
termination_by structural v => v

end

instance : DecidableEq Value := fun a b => decidable_of_iff _ (Value.same_iff a b)

namespace Value

/-- The text that stands for an unknown value inside a traversal. -/
def nullText : String := "  cypher.null"

def unknown : Value := .string nullText

def isNull : Value → Bool
  | .null => true
  | _ => false

/-- Null or the text that stands for it. -/
def isUnknown : Value → Bool
  | .null => true
  | .string s => s == nullText
  | _ => false

def isNumber : Value → Bool
  | .int _ => true
  | .float _ => true
  | _ => false

def int? : Value → Option Int64
  | .int i => some i
  | _ => none

/-- A number in double precision. -/
def number? : Value → Option Binary64
  | .int i => some (Binary64.ofInt i.toInt)
  | .float x => some x
  | _ => none

def string? : Value → Option String
  | .string s => some s
  | _ => none

def bool? : Value → Option Bool
  | .bool b => some b
  | _ => none

def list? : Value → Option (List Value)
  | .list items => some items
  | _ => none

def map? : Value → Option (Dictionary Value Value)
  | .map entries => some entries
  | _ => none

def typeName : Value → String
  | .null => "null"
  | .bool _ => "bool"
  | .int _ => "int"
  | .float _ => "float"
  | .string _ => "string"
  | .list _ => "list"
  | .map _ => "map"
  | .vertex _ => "vertex"
  | .edge _ => "edge"
  | .property _ _ _ => "property"

def ofNat (n : Nat) : Value := .int (Int64.ofNat n)

/-- A map from texts; a key given twice keeps its first place and its last value. -/
def record (entries : List (String × Value)) : Value :=
  .map (Dictionary.ofEntries (entries.map fun (key, value) => (.string key, value)))

end Value

/-- Query parameters, the properties of an element, and the columns of a row. -/
abbrev Properties := Dictionary String Value

end PropertyGraph
