import PropertyGraph.Cypher.Lexical
import PropertyGraph.Cypher.WriteScript
import PropertyGraph.Proofs.Cypher.Evaluation
import PropertyGraph.Proofs.Cypher.Reach
import PropertyGraph.Proofs.Graph.History

/-!
What a CREATE clause asks for, row by row: a vertex for each new node of its patterns, an edge for
each relationship between what the nodes stand for, both with the properties that their expressions
have for the row. Nothing here knows of steps or traversals.
-/

namespace PropertyGraph

def PathPattern.nodes (p : PathPattern) : List NodePattern := p.start :: p.chain.map (·.2)

namespace Cypher

/-- Whether a name may be written without backticks. -/
def isPlainName (name : String) : Bool :=
  match name.toList with
  | [] => false
  | c :: rest => (Text.isLetter c || c = '_') && rest.all isWordPart

/-- What an element is called: by its variable, or, if it is an anonymous node, by a number. -/
inductive Anchor where
  | named (name : String)
  | unnamed (number : Nat)
deriving DecidableEq

def Anchor.label : Anchor → String
  | .named name => name
  | .unnamed number => unnamedLabel number

theorem natText_injective {m n : Nat} (same : natText m = natText n) : m = n := by
  have chars := congrArg String.toList same
  rw [natText, natText, String.toList_ofList, String.toList_ofList] at chars
  have numbers := congrArg (Nat.ofDigitChars 10 · 0) chars
  simpa [digitChars, Nat.ofDigitChars_toDigits] using numbers

theorem unnamedLabel_injective {m n : Nat} (same : unnamedLabel m = unnamedLabel n) : m = n := by
  have chars := congrArg String.toList same
  rw [unnamedLabel, unnamedLabel, String.toList_append, String.toList_append,
    List.append_cancel_left_eq] at chars
  exact natText_injective (String.toList_injective chars)

/-- No anonymous node is labelled like a plain name, which does not begin with a blank. -/
theorem unnamedLabel_of_plain {name : String} (plain : isPlainName name = true) (n : Nat) :
    name ≠ unnamedLabel n := by
  rintro rfl
  have first : (unnamedLabel n).toList = ' ' :: (" UNNAMED".toList ++ (natText n).toList) := by
    rw [unnamedLabel, String.toList_append, ← List.cons_append]
    exact congrArg (· ++ (natText n).toList) (by decide)
  have blank : (Text.isLetter ' ' || decide (' ' = '_')) = false := by decide
  rw [isPlainName, first] at plain
  dsimp only at plain
  rw [blank] at plain
  cases plain

/-- What a node is called, given how many anonymous ones there were before. -/
def anchorOf (n : Nat) (node : NodePattern) : Anchor :=
  match node.name with
  | some name => .named name
  | none => .unnamed (n + 1)

/-- How many anonymous nodes there are up to a node. -/
def numberAfter (n : Nat) (node : NodePattern) : Nat := if node.name.isNone then n + 1 else n

def anchored : Nat → List NodePattern → List (Anchor × NodePattern)
  | _, [] => []
  | n, node :: rest => (anchorOf n node, node) :: anchored (numberAfter n node) rest

def anchoredPaths : Nat → List PathPattern → List (List (Anchor × NodePattern) × PathPattern)
  | _, [] => []
  | n, p :: rest => (anchored n p.nodes, p) :: anchoredPaths (p.nodes.foldl numberAfter n) rest

/-- What is to be created: a node, or a relationship between what is called so. -/
inductive Part where
  | node (anchor : Anchor) (pattern : NodePattern)
  | edge (source target : Anchor) (pattern : RelationshipPattern)

namespace Part

def anchor? : Part → Option Anchor
  | .node anchor _ => some anchor
  | .edge _ _ pattern => pattern.name.map .named

def isNode : Part → Bool
  | .node _ _ => true
  | .edge _ _ _ => false

def properties : Part → List (String × Expression)
  | .node _ pattern => pattern.properties
  | .edge _ _ pattern => pattern.properties

/-- From left to right, unless the arrow points to the left. -/
def between (left right : Anchor) (r : RelationshipPattern) : Part :=
  if r.direction = .incoming then .edge right left r else .edge left right r

end Part

/-- One more node is to be created, unless it is bound or has been created. -/
def withNode (bound : List Anchor) (parts : List Part) (node : Anchor × NodePattern) : List Part :=
  if node.1 ∈ bound ∨ node.1 ∈ parts.filterMap Part.anchor? then parts
  else parts ++ [.node node.1 node.2]

/-- The relationships of a path, between what its nodes are called. -/
def newEdges : List Anchor → List (RelationshipPattern × NodePattern) → List Part
  | left :: right :: anchors, (r, _) :: rest =>
      .between left right r :: newEdges (right :: anchors) rest
  | _, _ => []

/-- All that a clause creates, given the variables before it: the nodes of all paths, and then the
relationships. -/
def createdParts (bound : List String) (n : Nat) (paths : List PathPattern) : List Part :=
  ((anchoredPaths n paths).flatMap (·.1)).foldl (withNode (bound.map .named)) []
    ++ (anchoredPaths n paths).flatMap fun path => newEdges (path.1.map (·.1)) path.2.chain

/-- What the variables stand for before the clause. -/
abbrev Valuation := String → Option Value

/-- What has been made for one row, and what it is called. -/
structure Made where
  vertices : List Vertex
  edges : List Edge
  known : Dictionary Anchor Value

namespace Made

def nothing : Made := ⟨[], [], []⟩

def holding (made : Made) : Element → Made
  | .vertex v => { made with vertices := made.vertices ++ [v] }
  | .edge e => { made with edges := made.edges ++ [e] }

def calling (made : Made) (anchor : Option Anchor) (v : Value) : Made :=
  { made with known := made.known ++ (anchor.map (·, v)).toList }

def value? (made : Made) (row : Valuation) : Anchor → Option Value
  | .named name => (Dictionary.get? (.named name) made.known).or (row name)
  | .unnamed number => Dictionary.get? (.unnamed number) made.known

/-- A graph that holds what there was before and all that has been made for the row. What other
rows have made by then does not matter, since no variable of this row stands for it. -/
structure StandsIn (made : Made) (before g : Graph) : Prop where
  reachable : g.Reachable
  vertices : ∀ v ∈ before.vertices ++ made.vertices, v ∈ g.vertices
  edges : ∀ e ∈ before.edges ++ made.edges, e ∈ g.edges

/-- The value of an expression for the row, given what has been made for it. -/
def Evaluates (made : Made) (before : Graph) (row : Valuation) (e : Expression) (v : Value) :
    Prop :=
  ∃ g, made.StandsIn before g ∧
    e.evaluate ⟨g, fun name => made.value? row (.named name)⟩ = .ok v

end Made

/-- Null takes away what an earlier entry has written. -/
def written (key : String) (v : Value) (properties : Properties) : Properties :=
  if v.isUnknown then Dictionary.remove key properties else Dictionary.put key v properties

/-- The properties that come of the entries of a pattern, one after another. A null that is written
out is left out. -/
inductive Fills (evaluates : Expression → Value → Prop) :
    List (String × Expression) → Properties → Prop
  | nil : Fills evaluates [] []
  | skip {entries : List (String × Expression)} {properties : Properties} {key : String}
      {e : Expression} (earlier : Fills evaluates entries properties)
      (null : e.literal? = some .null) : Fills evaluates (entries ++ [(key, e)]) properties
  | write {entries : List (String × Expression)} {properties : Properties} {key : String}
      {e : Expression} {v : Value} (earlier : Fills evaluates entries properties)
      (known : e.literal? ≠ some .null) (value : evaluates e v) :
      Fills evaluates (entries ++ [(key, e)]) (written key v properties)

/-- The element is what a part asks for, apart from its properties. -/
inductive Part.Describes (row : Valuation) (made : Made) : Part → Element → Prop
  | node {anchor : Anchor} {pattern : NodePattern} {v : Vertex}
      (label : v.label = pattern.labels.head?.getD Exec.defaultLabel) :
      Describes row made (.node anchor pattern) (.vertex v)
  | edge {source target : Anchor} {pattern : RelationshipPattern} {e : Edge} {v w : VertexRef}
      (label : pattern.types = [e.label])
      (starts : made.value? row source = some (.vertex v)) (leaves : e.source = v.id)
      (ends : made.value? row target = some (.vertex w)) (enters : e.target = w.id) :
      Describes row made (.edge source target pattern) (.edge e)

/-- What is made for a row, part by part. -/
inductive MadeFor (before : Graph) (row : Valuation) : List Part → Made → Prop
  | nothing : MadeFor before row [] .nothing
  | part {parts : List Part} {made : Made} {part : Part} {x : Element}
      (earlier : MadeFor before row parts made) (describes : part.Describes row made x)
      (fills : Fills (made.Evaluates before row) part.properties x.properties) :
      MadeFor before row (parts ++ [part]) ((made.holding x).calling part.anchor? x.value)

/-- The patterns of a clause have been made once for each row, and nothing else has changed. The
anonymous nodes may be numbered from anywhere. -/
def CreatedPerRow (bound : List String) (paths : List PathPattern) (rows : List Valuation)
    (before after : Graph) : Prop :=
  ∃ n made, List.Forall₂ (fun row made => MadeFor before row (createdParts bound n paths) made)
      rows made ∧
    before.Grown (made.flatMap Made.vertices) (made.flatMap Made.edges) after

theorem MadeFor.anchors {before : Graph} {row : Valuation} {parts : List Part} {made : Made}
    (makes : MadeFor before row parts made) :
    made.known.map (·.1) = parts.filterMap Part.anchor? := by
  induction makes with
  | nothing => rfl
  | @part _ made part x _ _ _ ih =>
      have same : (made.holding x).known = made.known := by cases x <;> rfl
      rw [List.filterMap_append, ← ih, Made.calling, List.map_append, same]
      cases called : part.anchor? <;> simp [called]

end Cypher

end PropertyGraph
