import PropertyGraph.Program.Basic

/-!
Operations on builders of traversals, over a type `α` of finished builders that may stand as
arguments. Only `vertices`, `edges` and `addVertex` start at the graph; every other step is
appended.
-/

namespace PropertyGraph

inductive BuildFault where
  | misplacedEdges
  | projectWithoutKeys
  | selectWithoutKeys
deriving DecidableEq

def BuildFault.message : BuildFault → String
  | .misplacedEdges => "Edge graph step can only be at the start of traversal"
  | .projectWithoutKeys => "`project()` step requires keys"
  | .selectWithoutKeys => "Select step should have arguments"

/-- What stands in one argument place of an appended step; programs come from builders only. -/
inductive Slot (α : Type) where
  | argument (a : Argument) (flat : a.program? = none)
  | builder (b : α)

namespace Slot

variable {α β : Type}

def literal (v : Value) : Slot α := .argument (.literal v) rfl

def predicate (p : Predicate) : Slot α := .argument (.predicate p) rfl

def label (s : String) : Slot α := .argument (.label s) rfl

def scope (s : Scope) : Slot α := .argument (.scope s) rfl

def order (o : SortOrder) : Slot α := .argument (.order o) rfl

def pop (p : Pop) : Slot α := .argument (.pop p) rfl

def column (c : Column) : Slot α := .argument (.column c) rfl

def cardinality (c : Cardinality) : Slot α := .argument (.cardinality c) rfl

def token (t : ElementToken) : Slot α := .argument (.token t) rfl

def function (f : Function) : Slot α := .argument (.function f) rfl

def map (f : α → β) : Slot α → Slot β
  | .argument a flat => .argument a flat
  | .builder b => .builder (f b)

end Slot

inductive Op (α : Type) where
  | vertices
  | edges
  | addVertex (label : Option String)
  | append (kind : StepKind) (slots : List (Slot α))
      (inner : kind.isEntry = false := by exact Eq.refl false)
  | nothing
  | refuse (fault : BuildFault)

namespace Op

variable {α β : Type}

def map (f : α → β) : Op α → Op β
  | .vertices => .vertices
  | .edges => .edges
  | .addVertex label => .addVertex label
  | .append kind slots inner => .append kind (slots.map (Slot.map f)) inner
  | .nothing => .nothing
  | .refuse fault => .refuse fault

def labelled (kind : StepKind) (labels : List String)
    (inner : kind.isEntry = false := by exact Eq.refl false) : Op α :=
  .append kind (labels.map .label) inner

/-- A step whose arguments are all builders. -/
def nested (kind : StepKind) (builders : List α)
    (inner : kind.isEntry = false := by exact Eq.refl false) : Op α :=
  .append kind (builders.map .builder) inner

/-- A filter by labels; without labels it filters nothing. -/
def hasLabel (labels : List String) : Op α :=
  if labels.isEmpty then .nothing else labelled .hasLabel labels

/-- A filter by property keys; without keys it filters nothing. -/
def hasKey (keys : List String) : Op α :=
  if keys.isEmpty then .nothing else labelled .hasKey keys

def project (keys : List String) : Op α :=
  if keys.isEmpty then .refuse .projectWithoutKeys else labelled .project keys

def select (keys : List String) : Op α :=
  if keys.isEmpty then .refuse .selectWithoutKeys else labelled .select keys

def has (key : String) (p : Predicate) : Op α := .append .has [.label key, .predicate p]

def is_ (p : Predicate) : Op α := .append .is_ [.predicate p]

def selectLabel (pop : Pop) (label : String) : Op α := .append .select [.pop pop, .label label]

def selectColumn (column : Column) : Op α := .append .select [.column column]

def apply (f : Function) : Op α := .append .map [.function f]

def constant (v : Value) : Op α := .append .constant [.literal v]

def limit (n : Int64) : Op α := .append .limit [.literal (.int n)]

def range (scope : Scope) (low high : Int64) : Op α :=
  .append .range [.scope scope, .literal (.int low), .literal (.int high)]

def times (n : Nat) : Op α := .append .times [.literal (.ofNat n)]

def option (pick : Value) (branch : α) : Op α := .append .option [.literal pick, .builder branch]

def byOrder (key : α) (order : SortOrder) : Op α := .append .by_ [.builder key, .order order]

end Op

end PropertyGraph
