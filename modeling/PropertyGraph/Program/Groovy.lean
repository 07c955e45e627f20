import PropertyGraph.Program.Basic

/-!
Programs as Groovy source: a chain of calls on `g`, sub-programs as chains on `__`, texts between
single quotes.
-/

namespace PropertyGraph.Groovy

/-- The quote, the backslash and the line feed are escaped. -/
def escapeChar (c : Char) : List Char :=
  if c = '\'' then ['\\', '\'']
  else if c = '\\' then ['\\', '\\']
  else if c = '\n' then ['\\', 'n']
  else [c]

def quoteChars (s : List Char) : List Char := '\'' :: (s.flatMap escapeChar ++ ['\''])

def quote (s : String) : String := String.ofList (quoteChars s.toList)

mutual

def literal : Value → String
  | .string s => quote s
  | .list items => Text.listed (literals items)
  | .map [] => "[:]"
  | .map entries => Text.listed (entryLiterals entries)
  | value => value.text

def literals : List Value → List String
  | [] => []
  | item :: rest => literal item :: literals rest

def entryLiterals : List (Value × Value) → List String
  | [] => []
  | entry :: rest => entryLiteral entry :: entryLiterals rest

def entryLiteral : Value × Value → String
  | (.string key, value) => "(" ++ quote key ++ "): " ++ literal value
  | (key, value) => literal key ++ ": " ++ literal value

end

def predicate (p : Predicate) : String :=
  match p with
  | .eq v | .neq v | .lt v | .lte v | .gt v | .gte v => "P." ++ Predicate.call p.name [literal v]
  | .within vs | .without vs => "P." ++ Predicate.call p.name (literals vs)
  | .between low high => "P." ++ Predicate.call p.name [literal low, literal high]
  | .startingWith s | .endingWith s | .containing s =>
      "TextP." ++ Predicate.call p.name [quote s]
  | .and a b | .or a b => predicate a ++ "." ++ Predicate.call p.name [predicate b]
  | .not a => "P." ++ Predicate.call p.name [predicate a]

mutual

def argument : Argument → String
  | .literal v => literal v
  | .predicate p => predicate p
  | .program [] => "__.identity()"
  | .program steps => "__" ++ chain steps
  | .label s => quote s
  | .scope s => "Scope." ++ s.name
  | .order o => "Order." ++ o.name
  | .pop p => "Pop." ++ p.name
  | .column c => "Column." ++ c.name
  | .cardinality c => "VertexProperty.Cardinality." ++ c.name
  | .token t => "T." ++ t.name
  | .function f => f.text

def arguments : List Argument → List String
  | [] => []
  | first :: rest => argument first :: arguments rest

def call : Step → String
  | .mk kind given => "." ++ kind.name ++ "(" ++ Text.joined ", " (arguments given) ++ ")"

def chain : List Step → String
  | [] => ""
  | step :: rest => call step ++ chain rest

end

def ofProgram (p : Program) : String := "g" ++ chain p

end PropertyGraph.Groovy
