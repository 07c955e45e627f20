import PropertyGraph.Cypher.Expression
import PropertyGraph.Text.CharClass
import PropertyGraph.Text.Casing

/-!
Reading words and marks of queries. Blanks and comments are skipped before every mark or word that
is looked for, found or not; positions count bytes. Keywords are matched without regard to case and
end where no letter, digit or underscore follows.
-/

namespace PropertyGraph

inductive ParseFault where
  | unexpectedInput (position : Nat) (snippet : String)
  | expectedClause (snippet : String)
  | expectedCharacter (wanted : Char) (position : Nat) (got : Option Char)
  | expectedKeyword (word : String) (position : Nat)
  | expectedName (position : Nat)
  | expectedExpression (position : Nat) (snippet : String)
  | expectedCount (clause : String) (got : Expression)
  | expectedInteger
  | unexpectedKeyword (name : String)
  | unclosedName
  | unclosedString
  | invalidInteger (text : String)
  | invalidNumber (text : String)
  | invalidRange (min max : Nat)
  | bothDirections
  | missingParameter (name : String)

def ParseFault.message : ParseFault → String
  | .unexpectedInput position snippet =>
      "Unexpected input at position " ++ natText position ++ ": '" ++ snippet ++ "'"
  | .expectedClause snippet => "Expected MATCH, CREATE or RETURN, got '" ++ snippet ++ "'"
  | .expectedCharacter wanted position got =>
      "Expected '" ++ String.ofList [wanted] ++ "' at position " ++ natText position ++ ", got "
        ++ (match got with
          | some c => "Some(" ++ Text.quotedChar c ++ ")"
          | none => "None")
  | .expectedKeyword word position =>
      "Expected keyword '" ++ word ++ "' at position " ++ natText position
  | .expectedName position => "Expected identifier at position " ++ natText position
  | .expectedExpression position snippet =>
      "Expected expression at position " ++ natText position ++ ", got '" ++ snippet ++ "'"
  | .expectedCount clause got =>
      clause ++ " expects a non-negative integer, got " ++ got.inspect
  | .expectedInteger => "Expected integer"
  | .unexpectedKeyword name => "Unexpected keyword '" ++ name ++ "' in expression"
  | .unclosedName => "Unclosed escaped identifier"
  | .unclosedString => "Unclosed string"
  | .invalidInteger text => "Invalid integer: " ++ text
  | .invalidNumber text => "Invalid number: " ++ text
  | .invalidRange min max =>
      "Invalid variable length range *" ++ natText min ++ ".." ++ natText max
  | .bothDirections => "Relationship cannot point in both directions"
  | .missingParameter name => "Expected parameter(s): " ++ name

namespace Cypher

/-- What does not change while a query is read. -/
structure Source where
  bytes : Nat
  parameters : Properties

/-- Readers of the rest of a query. -/
abbrev Parser := ReaderT Source (StateT (List Char) (Except ParseFault))

mutual

def dropBlanks : List Char → List Char
  | [] => []
  | '/' :: '/' :: rest => dropLine rest
  | '/' :: '*' :: rest => dropBlock rest
  | c :: rest => if Text.isBlank c then dropBlanks rest else c :: rest

/-- The rest of a comment that ends with its line. -/
def dropLine : List Char → List Char
  | [] => []
  | '\n' :: rest => dropBlanks rest
  | _ :: rest => dropLine rest

/-- The rest of a comment that ends with its mark. -/
def dropBlock : List Char → List Char
  | [] => []
  | '*' :: '/' :: rest => dropBlanks rest
  | _ :: rest => dropBlock rest

end

def skipBlanks : Parser Unit := modify dropBlanks

def position : Parser Nat := do return (← read).bytes - Text.byteLength (← get)

/-- The beginning of the rest, for messages. -/
def snippet : Parser String := do return String.ofList ((← get).take 20)

def peek : Parser (Option Char) := do return (← get).head?

def advance : Parser Unit := modify List.tail

def tryChar (c : Char) : Parser Bool := do
  skipBlanks
  if (← peek) == some c then
    advance
    return true
  return false

def expectChar (c : Char) : Parser Unit := do
  unless ← tryChar c do
    throw (.expectedCharacter c (← position) (← peek))

def tryMark (mark : List Char) : Parser Bool := do
  skipBlanks
  let rest ← get
  if mark.isPrefixOf rest then
    set (rest.drop mark.length)
    return true
  return false

def isWordPart (c : Char) : Bool := Text.isLetterOrNumber c || c = '_'

/-- The rest behind a keyword, which is given in capitals. -/
def afterKeyword? : List Char → List Char → Option (List Char)
  | [], rest => if (rest.head?).any isWordPart then none else some rest
  | _ :: _, [] => none
  | k :: word, c :: rest => if c.toUpper = k then afterKeyword? word rest else none

def tryKeyword (word : String) : Parser Bool := do
  skipBlanks
  match afterKeyword? word.toList (← get) with
  | some rest =>
      set rest
      return true
  | none => return false

def expectKeyword (word : String) : Parser Unit := do
  unless ← tryKeyword word do
    throw (.expectedKeyword word (← position))

def startsName (c : Char) : Bool := Text.isLetter c || c = '_' || c = '`'

def atName : Parser Bool := do return (← peek).any startsName

def atDigit : Parser Bool := do return (← peek).any isDigit

def isQuote (c : Char) : Bool := c = '"' || c = '\''

/-- A plain name, or any text without a backtick between two of them. -/
def name : Parser String := do
  skipBlanks
  match ← get with
  | '`' :: rest =>
      match rest.dropWhile (· != '`') with
      | [] => throw .unclosedName
      | _ :: after =>
          set after
          return String.ofList (rest.takeWhile (· != '`'))
  | c :: rest =>
      if Text.isLetter c || c = '_' then
        set (rest.dropWhile isWordPart)
        return String.ofList (c :: rest.takeWhile isWordPart)
      else throw (.expectedName (← position))
  | [] => throw (.expectedName (← position))

def unescaped (c : Char) : Char :=
  if c = 'n' then '\n' else if c = 't' then '\t' else if c = 'r' then '\r' else c

/-- The text up to the closing quote, and the rest behind that. -/
def stringBody (quote : Char) : List Char → Option (List Char × List Char)
  | [] => none
  | c :: rest =>
      if c = quote then some ([], rest)
      else if c = '\\' then
        match rest with
        | [] => none
        | e :: rest => (stringBody quote rest).map fun (text, after) => (unescaped e :: text, after)
      else (stringBody quote rest).map fun (text, after) => (c :: text, after)

def string? : Parser (Option String) := do
  skipBlanks
  match ← get with
  | [] => return none
  | quote :: rest =>
      if isQuote quote then
        match stringBody quote rest with
        | some (text, after) =>
            set after
            return some (String.ofList text)
        | none => throw .unclosedString
      else return none

def digits : Parser (List Char) := do
  let rest ← get
  set (rest.dropWhile isDigit)
  return rest.takeWhile isDigit

/-- A point and digits, if a digit follows the point. -/
def fraction : Parser (List Char) := do
  match ← get with
  | '.' :: c :: rest =>
      if isDigit c then
        set (c :: rest)
        return '.' :: (← digits)
      else return []
  | _ => return []

def exponent : Parser (List Char) := do
  match ← get with
  | e :: rest =>
      if e = 'e' || e = 'E' then
        match rest with
        | sign :: rest' =>
            if sign = '-' || sign = '+' then
              set rest'
              return e :: sign :: (← digits)
            else
              set rest
              return e :: (← digits)
        | [] =>
            set rest
            return [e]
      else return []
  | [] => return []

def number : Parser Value := do
  let whole ← digits
  let part ← fraction
  let power ← exponent
  let text := whole ++ part ++ power
  if part.isEmpty && power.isEmpty then
    match readInt64? text with
    | some i => return .int i
    | none => throw (.invalidInteger (String.ofList text))
  else
    match Decimal.read? text with
    | some x => return .float x
    | none => throw (.invalidNumber (String.ofList text))

/-- A length of at most 32 bits. -/
def length : Parser Nat := do
  skipBlanks
  let text ← digits
  if text.isEmpty || digitsValue text ≥ twoTo 32 then throw .expectedInteger
  return digitsValue text

/-- Items with commas between them, with fuel for each. -/
def separatedFrom {α : Type} (item : Parser α) : Nat → Parser (List α)
  | 0 => do return [← item]
  | fuel + 1 => do
      let first ← item
      if ← tryChar ',' then return first :: (← separatedFrom item fuel)
      return [first]

def separated {α : Type} (item : Parser α) : Parser (List α) := do
  separatedFrom item (← get).length

/-- Items for as long as one begins, with fuel for each. -/
def repeatedFrom {α : Type} (item? : Parser (Option α)) : Nat → Parser (List α)
  | 0 => return []
  | fuel + 1 => do
      match ← item? with
      | some first => return first :: (← repeatedFrom item? fuel)
      | none => return []

def repeated {α : Type} (item? : Parser (Option α)) : Parser (List α) := do
  repeatedFrom item? ((← get).length + 1)

/-- What was read by a parser, as it was written, without blanks around it. -/
def withText {α : Type} (item : Parser α) : Parser (α × String) := do
  skipBlanks
  let start ← get
  let found ← item
  let text := start.take (start.length - (← get).length)
  return (found, String.ofList (Text.trim text))

end Cypher

end PropertyGraph
