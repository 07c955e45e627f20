import PropertyGraph.Number.Decimal
import PropertyGraph.Text.Quoted

/-!
JSON documents and their compact text. The fields of an object stand in the order given; `sorted`
puts them in the order of their names. A number that is not finite is written as `null`.
-/

namespace PropertyGraph

inductive Json where
  | null
  | bool (b : Bool)
  | int (i : Int)
  | float (x : Binary64)
  | string (s : String)
  | array (items : List Json)
  | object (fields : List (String × Json))
deriving Inhabited

namespace Json

/-- Numbers are positional from `0.00001` to below `10^16`; a positive exponent has its sign. -/
def floatLayout : Decimal.Layout := ⟨-4, 16, true, false, "null", "null"⟩

def floatChars (x : Binary64) : List Char :=
  if x.isFinite then (Decimal.render floatLayout x).toList else ['n', 'u', 'l', 'l']

def boolChars (b : Bool) : List Char :=
  if b then ['t', 'r', 'u', 'e'] else ['f', 'a', 'l', 's', 'e']

/-- Only the quote, the backslash and control characters are escaped. -/
def escapeChar (c : Char) : List Char :=
  if c = '"' then ['\\', '"']
  else if c = '\\' then ['\\', '\\']
  else if c = '\x08' then ['\\', 'b']
  else if c = '\x0c' then ['\\', 'f']
  else if c = '\n' then ['\\', 'n']
  else if c = '\r' then ['\\', 'r']
  else if c = '\t' then ['\\', 't']
  else if c.toNat < 16 then '\\' :: 'u' :: '0' :: '0' :: '0' :: Text.hexDigits c.toNat
  else if c.toNat < 32 then '\\' :: 'u' :: '0' :: '0' :: Text.hexDigits c.toNat
  else [c]

def stringChars (s : String) : List Char := '"' :: (s.toList.flatMap escapeChar ++ ['"'])

/-- Items between two delimiters, separated by commas. -/
def commaSeparated : List (List Char) → List Char
  | [] => []
  | [last] => last
  | first :: rest => first ++ ',' :: commaSeparated rest

mutual

def chars : Json → List Char
  | .null => ['n', 'u', 'l', 'l']
  | .bool b => boolChars b
  | .int i => intChars i
  | .float x => floatChars x
  | .string s => stringChars s
  | .array items => '[' :: (commaSeparated (itemChars items) ++ [']'])
  | .object fields => '{' :: (commaSeparated (fieldsChars fields) ++ ['}'])

def itemChars : List Json → List (List Char)
  | [] => []
  | item :: rest => item.chars :: itemChars rest

def fieldsChars : List (String × Json) → List (List Char)
  | [] => []
  | field :: rest => fieldChars field :: fieldsChars rest

def fieldChars : String × Json → List Char
  | (name, value) => stringChars name ++ ':' :: value.chars

end

def text (json : Json) : String := String.ofList json.chars

/-- Writes a field among fields in ascending order of names. -/
def putSorted (name : String) (value : α) : List (String × α) → List (String × α)
  | [] => [(name, value)]
  | (other, old) :: rest =>
      match compare name other with
      | .lt => (name, value) :: (other, old) :: rest
      | .eq => (name, value) :: rest
      | .gt => (other, old) :: putSorted name value rest

/-- An object with ascending names; of fields with one name the last counts. -/
def sorted (fields : List (String × Json)) : Json :=
  .object (fields.foldl (fun known field => putSorted field.1 field.2 known) [])

end Json

end PropertyGraph
