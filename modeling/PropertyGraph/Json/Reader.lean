import PropertyGraph.Json.Basic
import PropertyGraph.Number.Arithmetic

/-!
Reading JSON text. A `Reader` takes what it needs from the front of the text; typed readers are
built from those for brackets, names, texts and numbers. A fault says whether the text is no JSON or
holds a value of another kind than asked for. Containers nest at most `depthLimit` deep, but a value
that is skipped may nest at will and its numbers and escapes are not evaluated.
-/

namespace PropertyGraph

namespace Json

inductive Fault where
  | malformed
  | mismatch
deriving DecidableEq

abbrev Reader (α : Type) := StateT (List Char) (Except Fault) α

namespace Reader

/-- Containers that may stand inside one another. -/
def depthLimit : Nat := 127

def isSpace (c : Char) : Bool := c = ' ' || c = '\n' || c = '\t' || c = '\r'

/-- The next character after white space, left in place. -/
def peek : Reader (Option Char) := fun input =>
  let rest := input.dropWhile isSpace
  .ok (rest.head?, rest)

def advance : Reader Unit := fun input => .ok ((), input.tail)

def literal : List Char → Reader Unit
  | [] => pure ()
  | expected :: more => fun input =>
      match input with
      | c :: rest => if c = expected then literal more rest else throw .malformed
      | [] => throw .malformed

/-! ### Numbers -/

/-- A number as written. -/
structure Numeral where
  negative : Bool
  whole : List Char
  fraction : Option (List Char)
  exponent : Option (Bool × List Char)

def digits : Reader (List Char) := fun input =>
  .ok (input.takeWhile isDigit, input.dropWhile isDigit)

def someDigits : Reader (List Char) := do
  let found ← digits
  if found.isEmpty then throw .malformed else pure found

def optionalChar (accept : Char → Bool) : Reader (Option Char) := fun input =>
  match input with
  | c :: rest => if accept c then .ok (some c, rest) else .ok (none, input)
  | [] => .ok (none, input)

def numeral (negative : Bool) : Reader Numeral := do
  let whole ← someDigits
  if whole.head? = some '0' && 1 < whole.length then throw .malformed
  let fraction ← match ← optionalChar (· = '.') with
    | some _ => some <$> someDigits
    | none => pure none
  let exponent ← match ← optionalChar fun c => c = 'e' || c = 'E' with
    | some _ => do
        let sign ← optionalChar fun c => c = '+' || c = '-'
        let found ← someDigits
        pure (some (sign == some '-', found))
    | none => pure none
  pure ⟨negative, whole, fraction, exponent⟩

inductive Number where
  | int (i : Int)
  | float (x : Binary64)

/-- Appends digits while the number fits into 64 bits; also how many were taken. -/
def absorb (significand : Nat) : List Char → Nat × Nat
  | [] => (significand, 0)
  | c :: rest =>
      let next := significand * 10 + digitsValue [c]
      if next < twoTo 64 then
        let (value, taken) := absorb next rest
        (value, taken + 1)
      else (significand, 0)

def powerOfTen (exponent : Nat) : Binary64 := Binary64.ofInt (tenTo exponent)

/-- Scales by powers of ten in double precision, in steps of at most `10^308`. -/
def scale (x : Binary64) (exponent : Int) : Nat → Except Fault Binary64
  | 0 => .ok x
  | steps + 1 =>
      if exponent.natAbs ≤ 308 then
        if 0 ≤ exponent then
          let product := x.mul (powerOfTen exponent.natAbs)
          if product.isInfinite then throw .malformed else .ok product
        else .ok (x.div (powerOfTen exponent.natAbs))
      else if x.isZero then .ok x
      else if 0 ≤ exponent then throw .malformed
      else scale (x.div (powerOfTen 308)) (exponent + 308) steps

def floating (negative : Bool) (significand : Nat) (exponent : Int) : Except Fault Number := do
  let x ← scale (Binary64.ofInt significand) exponent 3
  pure (.float (if negative then x.neg else x))

/-- An integer where one is written and fits, else the digits that fit scaled by the exponent. -/
def Numeral.value (n : Numeral) : Except Fault Number :=
  let (whole, taken) := absorb 0 n.whole
  let dropped : Int := (n.whole.length - taken : Nat)
  let (significand, places) := absorb whole (n.fraction.getD [])
  let start : Int := dropped - places
  match n.exponent with
  | some (down, written) =>
      let exponent := digitsValue written
      if twoTo 31 ≤ exponent then
        if significand ≠ 0 && !down then throw .malformed
        else .ok (.float (Binary64.zero n.negative))
      else floating n.negative significand (if down then start - exponent else start + exponent)
  | none =>
      if n.fraction.isSome || dropped ≠ 0 then floating n.negative significand start
      else if !n.negative then .ok (.int significand)
      else if significand = 0 || twoTo 63 < significand then
        .ok (.float (Binary64.ofInt significand).neg)
      else .ok (.int (-(significand : Int)))

def number (negative : Bool) : Reader Number := do
  (← numeral negative).value

/-! ### Texts -/

def hexValue? (c : Char) : Option Nat :=
  if '0' ≤ c && c ≤ '9' then some (c.toNat - '0'.toNat)
  else if 'a' ≤ c && c ≤ 'f' then some (c.toNat - 'a'.toNat + 10)
  else if 'A' ≤ c && c ≤ 'F' then some (c.toNat - 'A'.toNat + 10)
  else none

def hexEscape : List Char → Option (Nat × List Char)
  | a :: b :: c :: d :: rest => do
      let a ← hexValue? a
      let b ← hexValue? b
      let c ← hexValue? c
      let d ← hexValue? d
      some (((a * 16 + b) * 16 + c) * 16 + d, rest)
  | _ => none

def simpleEscape? (c : Char) : Option Char :=
  if c = '"' || c = '\\' || c = '/' then some c
  else if c = 'b' then some '\x08'
  else if c = 'f' then some '\x0c'
  else if c = 'n' then some '\n'
  else if c = 'r' then some '\r'
  else if c = 't' then some '\t'
  else none

/-- A code point written in hexadecimal; above `0xFFFF` as a pair of surrogates. -/
def codeEscape (input : List Char) : Option (Char × List Char) := do
  let (high, rest) ← hexEscape input
  if 0xDC00 ≤ high && high ≤ 0xDFFF then none
  else if 0xD800 ≤ high && high ≤ 0xDBFF then
    match rest with
    | '\\' :: 'u' :: rest => do
        let (low, rest) ← hexEscape rest
        if 0xDC00 ≤ low && low ≤ 0xDFFF then
          some (Char.ofNat ((high - 0xD800) * 0x400 + (low - 0xDC00) + 0x10000), rest)
        else none
    | _ => none
  else some (Char.ofNat high, rest)

/-- The rest of a text up to its closing quote, with fuel for each character. -/
def stringBody : Nat → List Char → Option (List Char × List Char)
  | 0, _ => none
  | _ + 1, [] => none
  | fuel + 1, '\\' :: 'u' :: rest => do
      let (c, rest) ← codeEscape rest
      let (tail, rest) ← stringBody fuel rest
      some (c :: tail, rest)
  | fuel + 1, '\\' :: escaped :: rest => do
      let c ← simpleEscape? escaped
      let (tail, rest) ← stringBody fuel rest
      some (c :: tail, rest)
  | fuel + 1, c :: rest =>
      if c = '"' then some ([], rest)
      else if c = '\\' || c.toNat < 32 then none
      else do
        let (tail, rest) ← stringBody fuel rest
        some (c :: tail, rest)

/-- A text whose opening quote has been taken. -/
def string : Reader String := fun input =>
  match stringBody (input.length + 1) input with
  | some (body, rest) => .ok (String.ofList body, rest)
  | none => throw .malformed

/-- Skips a text, taking any four hexadecimal digits for a code point. -/
def skipString : Nat → List Char → Option (List Char)
  | 0, _ => none
  | _ + 1, [] => none
  | fuel + 1, '\\' :: 'u' :: rest => do
      let (_, rest) ← hexEscape rest
      skipString fuel rest
  | fuel + 1, '\\' :: escaped :: rest => do
      let _ ← simpleEscape? escaped
      skipString fuel rest
  | fuel + 1, c :: rest =>
      if c = '"' then some rest
      else if c = '\\' || c.toNat < 32 then none
      else skipString fuel rest

def skippedString : Reader Unit := fun input =>
  match skipString (input.length + 1) input with
  | some rest => .ok ((), rest)
  | none => throw .malformed

/-! ### Containers -/

/-- Whether another element of an array follows; a bracket that ends it stays. -/
def nextElement (first : Bool) : Reader Bool := do
  match ← peek with
  | none => throw .malformed
  | some c =>
      if c = ']' then pure false
      else if first then pure true
      else if c = ',' then
        advance
        match ← peek with
        | some c => if c = ']' then throw .malformed else pure true
        | none => throw .malformed
      else throw .malformed

def element? (first : Bool) (item : Reader α) : Reader (Option α) := do
  if ← nextElement first then some <$> item else pure none

def endArray : Reader Unit := do
  if (← peek) = some ']' then advance else throw .malformed

def elementsFrom (item : Reader α) (first : Bool) : Nat → Reader (List α)
  | 0 => throw .malformed
  | fuel + 1 => do
      match ← element? first item with
      | none => pure []
      | some value => do
          let rest ← elementsFrom item false fuel
          pure (value :: rest)

/-- All elements of an array whose opening bracket has been taken. -/
def elements (item : Reader α) : Reader (List α) := do
  let found ← elementsFrom item true ((← get).length + 1)
  endArray
  pure found

/-- Takes the quote that opens the next name of an object, if there is one. -/
def nextName (first : Bool) : Reader Bool := do
  match ← peek with
  | none => throw .malformed
  | some c =>
      if c = '}' then pure false
      else if first then
        if c = '"' then advance; pure true else throw .malformed
      else if c = ',' then
        advance
        if (← peek) = some '"' then advance; pure true else throw .malformed
      else throw .malformed

def colon : Reader Unit := do
  if (← peek) = some ':' then advance else throw .malformed

def endObject : Reader Unit := do
  if (← peek) = some '}' then advance else throw .malformed

def membersFrom (member : σ → Reader σ) (first : Bool) (state : σ) : Nat → Reader σ
  | 0 => throw .malformed
  | fuel + 1 => do
      if ← nextName first then
        let state ← member state
        membersFrom member false state fuel
      else pure state

/-- The members of an object, each read from behind the opening quote of its name; the closing
brace stays. -/
def members (member : σ → Reader σ) (state : σ) : Reader σ := do
  membersFrom member true state ((← get).length + 1)

def skipNested : Nat → Reader Unit
  | 0 => throw .malformed
  | depth + 1 => do
      match ← peek with
      | some 'n' => literal ['n', 'u', 'l', 'l']
      | some 't' => literal ['t', 'r', 'u', 'e']
      | some 'f' => literal ['f', 'a', 'l', 's', 'e']
      | some '"' => advance; skippedString
      | some '-' => advance; discard (numeral true)
      | some '[' => advance; discard (elements (skipNested depth))
      | some '{' =>
          advance
          members (fun _ => do skippedString; colon; skipNested depth) ()
          endObject
      | some c => if isDigit c then discard (numeral false) else throw .malformed
      | none => throw .malformed

def skip : Reader Unit := do skipNested ((← get).length + 1)

def ofNumber : Number → Json
  | .int i => .int i
  | .float x => .float x

def putMember (item : Reader Json) (fields : List (String × Json)) :
    Reader (List (String × Json)) := do
  let name ← string
  colon
  return putSorted name (← item) fields

/-- A value whose containers hold what `nested` reads; without it there may be none. -/
def valueOver (nested : Option (Reader Json)) : Reader Json := do
  match ← peek with
  | some 'n' => literal ['n', 'u', 'l', 'l']; pure .null
  | some 't' => literal ['t', 'r', 'u', 'e']; pure (.bool true)
  | some 'f' => literal ['f', 'a', 'l', 's', 'e']; pure (.bool false)
  | some '"' => advance; return .string (← string)
  | some '-' => advance; return ofNumber (← number true)
  | some '[' => match nested with
      | none => throw .malformed
      | some item => advance; return .array (← elements item)
  | some '{' => match nested with
      | none => throw .malformed
      | some item =>
          advance
          let fields ← members (putMember item) []
          endObject
          pure (.object fields)
  | some c => if isDigit c then return ofNumber (← number false) else throw .malformed
  | none => throw .malformed

/-- A value with at most so many containers inside one another; names come out ascending. -/
def value : Nat → Reader Json
  | 0 => valueOver none
  | depth + 1 => valueOver (some (value depth))

/-- The fault where a value of another kind stands: it must at least begin as one. -/
def otherKind : Reader α := do
  match ← peek with
  | some 'n' => literal ['n', 'u', 'l', 'l']
  | some 't' => literal ['t', 'r', 'u', 'e']
  | some 'f' => literal ['f', 'a', 'l', 's', 'e']
  | some '"' => advance; discard string
  | some '-' => advance; discard (number true)
  | some '[' => pure ()
  | some '{' => pure ()
  | some c => if isDigit c then discard (number false) else throw .malformed
  | none => throw .malformed
  throw .mismatch

/-! ### Typed readers -/

def expectString : Reader String := do
  if (← peek) = some '"' then advance; string else otherKind

def expectNumber : Reader Number := do
  match ← peek with
  | some '-' => advance; number true
  | some c => if isDigit c then number false else otherKind
  | none => otherKind

def expectInt (low high : Int) : Reader Int := do
  match ← expectNumber with
  | .int i => if low ≤ i && i ≤ high then pure i else throw .mismatch
  | .float _ => throw .mismatch

def expectBool : Reader Bool := do
  match ← peek with
  | some 't' => literal ['t', 'r', 'u', 'e']; pure true
  | some 'f' => literal ['f', 'a', 'l', 's', 'e']; pure false
  | _ => otherKind

def expectNull : Reader Unit := do
  if (← peek) = some 'n' then literal ['n', 'u', 'l', 'l'] else otherKind

def openArray : Reader Unit := do
  if (← peek) = some '[' then advance else otherKind

def expectArray (item : Reader α) : Reader (List α) := do
  openArray
  elements item

/-- The next element of an array of fixed size. -/
def expectElement (first : Bool) (item : Reader α) : Reader α := do
  match ← element? first item with
  | some value => pure value
  | none => throw .mismatch

def expectPair (first : Reader α) (second : Reader β) : Reader (α × β) := do
  openArray
  let a ← expectElement true first
  let b ← expectElement false second
  endArray
  pure (a, b)

/-- A field that has not been given before. -/
def field (known : Option α) (item : Reader α) : Reader (Option α) := do
  match known with
  | some _ => throw .mismatch
  | none => colon; some <$> item

/-- A field that nothing asks for. -/
def unknownField (state : σ) : Reader σ := do
  colon
  skip
  pure state

def required (known : Option α) : Reader α := do
  match known with
  | some value => pure value
  | none => throw .mismatch

/-- A structure, as an object of named fields or as an array of the fields in order. -/
def expectStructure (inOrder : Reader α) (named : Reader α) : Reader α := do
  match ← peek with
  | some '[' => advance; let found ← inOrder; endArray; pure found
  | some '{' => advance; let found ← named; endObject; pure found
  | _ => otherKind

/-- One of several variants: a bare name, or an object whose only field is named for the variant and
holds its content. A variant without content may also be written with `null` for it. -/
def variant (bare : String → Option α) (content : String → Reader α) : Reader α := do
  match ← peek with
  | some '"' => advance; required (bare (← string))
  | some '{' =>
      advance
      let tag ← expectString
      colon
      let found ← match bare tag with
        | some a => do expectNull; pure a
        | none => content tag
      endObject
      pure found
  | _ => throw .malformed

/-- A whole text that one reader takes, but for white space behind. -/
def document (reader : Reader α) (input : String) : Except Fault α := do
  let (result, rest) ← reader.run input.toList
  if rest.all isSpace then pure result else throw .malformed

end Reader

def parse (input : String) : Except Fault Json :=
  Reader.document (Reader.value Reader.depthLimit) input

end Json

end PropertyGraph
