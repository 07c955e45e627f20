import PropertyGraph.Value.Basic
import PropertyGraph.Number.Decimal
import PropertyGraph.Text.Quoted

/-!
Two texts of a value. `text` is what programs, results and messages show. `inspect` names the kind
of everything and quotes texts; it stands inside a few messages.
-/

namespace PropertyGraph

namespace Text

/-- Numbers are positional from `0.0001` to below `10^16`, always with a point or an exponent. -/
def floatLayout : Decimal.Layout := ⟨-3, 16, false, true, "NaN", "inf"⟩

def ofFloat (x : Binary64) : String := Decimal.render floatLayout x

def ofInt64 (i : Int64) : String := intText i.toInt

def ofBool (b : Bool) : String := if b then "true" else "false"

/-- Texts with a separator between neighbours. -/
def joined (separator : String) : List String → String
  | [] => ""
  | [last] => last
  | first :: rest => first ++ separator ++ joined separator rest

def listed (items : List String) : String := "[" ++ joined ", " items ++ "]"

def braced (items : List String) : String :=
  .singleton '{' ++ joined ", " items ++ .singleton '}'

/-- A structure with its fields. -/
def record (name : String) (fields : List (String × String)) : String :=
  let shown := joined ", " (fields.map fun (key, v) => key ++ ": " ++ v)
  name ++ " " ++ braced [" " ++ shown ++ " "]

end Text

def VertexId.inspect (id : VertexId) : String := "VertexId(" ++ natText id.toNat ++ ")"

def EdgeId.inspect (id : EdgeId) : String := "EdgeId(" ++ natText id.toNat ++ ")"

namespace Value

mutual

def text : Value → String
  | .null => "null"
  | .bool b => Text.ofBool b
  | .int i => Text.ofInt64 i
  | .float x => Text.ofFloat x
  | .string s => s
  | .list items => Text.listed (texts items)
  | .map entries => Text.braced (entryTexts entries)
  | .vertex v => "v[" ++ natText v.id.toNat ++ "]"
  | .edge e =>
      "e[" ++ natText e.id.toNat ++ "][" ++ natText e.source.toNat ++ "-" ++ e.label ++ "->"
        ++ natText e.target.toNat ++ "]"
  | .property _ key value => "p[" ++ key ++ "->" ++ value.text ++ "]"

def texts : List Value → List String
  | [] => []
  | item :: rest => item.text :: texts rest

def entryTexts : List (Value × Value) → List String
  | [] => []
  | entry :: rest => entryText entry :: entryTexts rest

def entryText : Value × Value → String
  | (key, value) => key.text ++ "=" ++ value.text

end

def inspectOwner : Owner → String
  | .vertex id => "Vertex(" ++ id.inspect ++ ")"
  | .edge id => "Edge(" ++ id.inspect ++ ")"

mutual

def inspect : Value → String
  | .null => "Null"
  | .bool b => "Bool(" ++ Text.ofBool b ++ ")"
  | .int i => "Int(" ++ Text.ofInt64 i ++ ")"
  | .float x => "Float(" ++ Text.ofFloat x ++ ")"
  | .string s => "String(" ++ Text.quoted s ++ ")"
  | .list items => "List(" ++ Text.listed (inspects items) ++ ")"
  | .map entries => "Map(" ++ Text.braced (inspectEntries entries) ++ ")"
  | .vertex v =>
      "Vertex(" ++ Text.record "VertexRef" [("id", v.id.inspect), ("label", Text.quoted v.label)]
        ++ ")"
  | .edge e =>
      "Edge(" ++ Text.record "EdgeRef" [("id", e.id.inspect), ("label", Text.quoted e.label),
        ("out_v", e.source.inspect), ("in_v", e.target.inspect)] ++ ")"
  | .property owner key value =>
      "Property(" ++ Text.record "PropertyRef" [("owner", inspectOwner owner),
        ("key", Text.quoted key), ("value", value.inspect)] ++ ")"

def inspects : List Value → List String
  | [] => []
  | item :: rest => item.inspect :: inspects rest

def inspectEntries : List (Value × Value) → List String
  | [] => []
  | entry :: rest => inspectEntry entry :: inspectEntries rest

def inspectEntry : Value × Value → String
  | (key, value) => key.inspect ++ ": " ++ value.inspect

end

end Value

end PropertyGraph
