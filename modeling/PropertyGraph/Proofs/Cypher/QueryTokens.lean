import PropertyGraph.Proofs.Cypher.Sequences

/-!
Writing queries. Patterns are written with their arrows and brackets, clauses with their keywords,
and expressions in whatever way they are printed. Where something can be left out or shortened, a
terse writer does so.
-/

namespace PropertyGraph

open Cypher

namespace Cypher

variable (print : Expression → List Token)

def optionalTokens : Option String → List Token
  | none => []
  | some name => [name.toList]

def entryTokens (entry : String × Expression) : List Token :=
  keyToken entry.1 :: [':'] :: print entry.2

def propertyTokens : List (String × Expression) → List Token
  | [] => []
  | entries => ['{'] :: (commas (entries.map (entryTokens print)) ++ [['}']])

/-- A keyword with what stands behind it, if that is there. -/
def clauseTokens {α : Type} (keyword : String) (tokens : α → List Token) : Option α → List Token
  | none => []
  | some a => keyword.toList :: tokens a

def nonempty? {α : Type} : List α → Option (List α)
  | [] => none
  | items => some items

theorem getD_nonempty? {α : Type} (items : List α) : (nonempty? items).getD [] = items := by
  cases items <;> rfl

theorem of_mem_nonempty? {α : Type} {items found : List α} (member : found ∈ nonempty? items) :
    found = items ∧ items ≠ [] := by
  cases items with
  | nil => cases member
  | cons first others =>
      cases member
      exact ⟨rfl, List.cons_ne_nil _ _⟩

def typeTokens : List String → List Token
  | [] => []
  | first :: others =>
      [':'] :: first.toList :: (others.map fun name => [['|'], name.toList]).flatten

end Cypher

variable (terse : Bool) (print : Expression → List Token)

def NodePattern.tokens (n : NodePattern) : List Token :=
  ['('] :: (optionalTokens n.name ++ ((n.labels.map fun label => [[':'], label.toList]).flatten ++
    (propertyTokens print n.properties ++ [[')']])))

/-- A range behind its star: both bounds, or the shortest way to say the same. -/
def PathLength.tokens : PathLength → List Token
  | ⟨least, some greatest⟩ =>
      if terse && least == greatest then [digitChars least]
      else if terse && least == 1 then [['.', '.'], digitChars greatest]
      else [digitChars least, ['.', '.'], digitChars greatest]
  | ⟨least, none⟩ =>
      if terse && least == 1 then [] else [digitChars least, ['.', '.']]

def lengthTokens : Option PathLength → List Token
  | none => []
  | some range => ['*'] :: range.tokens terse

namespace RelationshipPattern

def inside (r : RelationshipPattern) : List Token :=
  optionalTokens r.name ++ (typeTokens r.types ++ (lengthTokens terse r.length ++
    propertyTokens print r.properties))

/-- Brackets, which a terse writer leaves out if nothing stands in them. -/
def bracketed (r : RelationshipPattern) : List Token :=
  if terse && (r.inside terse print).isEmpty then []
  else ['['] :: (r.inside terse print ++ [[']']])

def tokens (r : RelationshipPattern) : List Token :=
  (if r.direction = .incoming then ['<', '-'] else ['-']) :: (r.bracketed terse print ++
    [if r.direction = .outgoing then ['-', '>'] else ['-']])

end RelationshipPattern

def PathPattern.tokens (p : PathPattern) : List Token :=
  p.start.tokens print ++
    (p.chain.map fun link => link.1.tokens terse print ++ link.2.tokens print).flatten

def patternTokens (patterns : List PathPattern) : List Token :=
  commas (patterns.map (PathPattern.tokens terse print))

def MatchClause.tokens (m : MatchClause) : List Token :=
  "MATCH".toList :: (patternTokens terse print m.patterns ++ clauseTokens "WHERE" print m.condition)

def SetItem.tokens (s : SetItem) : List Token :=
  s.owner.toList :: ['.'] :: s.key.toList :: ['='] :: print s.value

def DeleteClause.tokens (d : DeleteClause) : List Token :=
  (if d.detach then ["DETACH".toList] else []) ++
    "DELETE".toList :: commas (d.names.map fun name => [name.toList])

def deleteTokens : Option DeleteClause → List Token
  | none => []
  | some d => d.tokens

def ReturnItem.tokens (item : ReturnItem) : List Token :=
  print item.expression ++ clauseTokens "AS" (fun name => [name.toList]) item.alias_

/-- A terse writer leaves out that the order is ascending. -/
def SortItem.tokens (item : SortItem) : List Token :=
  print item.expression ++
    (if item.descending then ["DESC".toList] else if terse then [] else ["ASC".toList])

def ReturnClause.tokens (r : ReturnClause) : List Token :=
  (if r.distinct then ["DISTINCT".toList] else []) ++
    (commas (r.items.map (ReturnItem.tokens print)) ++
      (clauseTokens "ORDER" (fun items => "BY".toList ::
          commas (items.map (SortItem.tokens terse print))) (nonempty? r.order) ++
        (clauseTokens "SKIP" (fun n => [digitChars n.toInt.toNat]) r.skip ++
          clauseTokens "LIMIT" (fun n => [digitChars n.toInt.toNat]) r.limit)))

/-- The clauses in their order. -/
def Query.tokens (q : Query) : List Token :=
  (q.matches_.map (MatchClause.tokens terse print)).flatten ++
    (clauseTokens "CREATE" (patternTokens terse print) (nonempty? q.create) ++
      (clauseTokens "SET" (fun items => commas (items.map (SetItem.tokens print)))
          (nonempty? q.set) ++
        (deleteTokens q.delete ++
          clauseTokens "RETURN" (ReturnClause.tokens terse print) q.return_)))

/-- The text of a query, with a space between all tokens. -/
def Query.written (q : Query) : String := textOf (q.tokens terse print)

structure NodePattern.Writable (n : NodePattern) : Prop where
  name : ∀ name ∈ n.name, isBareName name = true
  labels : ∀ label ∈ n.labels, isBareName label = true
  properties : ∀ entry ∈ n.properties, PrintsBack print entry.2

/-- Bounds of 32 bits, the upper one no less than the lower one. -/
structure PathLength.Writable (range : PathLength) : Prop where
  least : range.min < twoTo 32
  greatest : ∀ max ∈ range.max, range.min ≤ max ∧ max < twoTo 32

structure RelationshipPattern.Writable (r : RelationshipPattern) : Prop where
  name : ∀ name ∈ r.name, isBareName name = true
  types : ∀ type ∈ r.types, isBareName type = true
  length : ∀ range ∈ r.length, range.Writable
  properties : ∀ entry ∈ r.properties, PrintsBack print entry.2

structure PathPattern.Writable (p : PathPattern) : Prop where
  start : p.start.Writable print
  chain : ∀ link ∈ p.chain, link.1.Writable print ∧ link.2.Writable print

structure MatchClause.Writable (m : MatchClause) : Prop where
  some_ : m.patterns ≠ []
  patterns : ∀ p ∈ m.patterns, p.Writable print
  condition : ∀ e ∈ m.condition, PrintsBack print e

structure SetItem.Writable (s : SetItem) : Prop where
  owner : isBareName s.owner = true
  key : isBareName s.key = true
  value : PrintsBack print s.value

structure DeleteClause.Writable (d : DeleteClause) : Prop where
  some_ : d.names ≠ []
  names : ∀ name ∈ d.names, isBareName name = true

/-- The text of an item is what its expression is printed to. -/
structure ReturnItem.Writable (item : ReturnItem) : Prop where
  expression : PrintsBack print item.expression
  text : item.text = textOf (print item.expression)
  alias_ : ∀ name ∈ item.alias_, isBareName name = true

structure SortItem.Writable (item : SortItem) : Prop where
  expression : PrintsBack print item.expression
  text : item.text = textOf (print item.expression)

structure ReturnClause.Writable (r : ReturnClause) : Prop where
  some_ : r.items ≠ []
  items : ∀ item ∈ r.items, item.Writable print
  order : ∀ item ∈ r.order, item.Writable print
  skip : ∀ n ∈ r.skip, 0 ≤ n.toInt
  limit : ∀ n ∈ r.limit, 0 ≤ n.toInt

/-- At least one clause, and every part can be written. -/
structure Query.Writable (q : Query) : Prop where
  some_ : Cypher.Query.isEmpty q = false
  matches_ : ∀ m ∈ q.matches_, m.Writable print
  create : ∀ p ∈ q.create, p.Writable print
  set : ∀ item ∈ q.set, item.Writable print
  delete : ∀ d ∈ q.delete, d.Writable
  return_ : ∀ r ∈ q.return_, r.Writable print

end PropertyGraph
