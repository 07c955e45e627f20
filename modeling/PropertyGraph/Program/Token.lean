import PropertyGraph.Program.Family

/-!
Tokens that steps take as arguments.
-/

namespace PropertyGraph

/-- Whether a step looks at the whole stream or into each object. -/
inductive Scope where
  | global
  | local_
deriving DecidableEq

inductive SortOrder where
  | asc
  | desc
  | shuffle
deriving DecidableEq

/-- Which object counts when a label occurs more than once on a path. -/
inductive Pop where
  | first
  | last
  | all
  | mixed
deriving DecidableEq

inductive Column where
  | keys
  | values
deriving DecidableEq

inductive Cardinality where
  | single
  | list
  | set
deriving DecidableEq

inductive ElementToken where
  | id
  | label
  | key
  | value
deriving DecidableEq

def Scope.name : Scope → String
  | .global => "global"
  | .local_ => "local"

def SortOrder.name : SortOrder → String
  | .asc => "asc"
  | .desc => "desc"
  | .shuffle => "shuffle"

def Pop.name : Pop → String
  | .first => "first"
  | .last => "last"
  | .all => "all"
  | .mixed => "mixed"

def Column.name : Column → String
  | .keys => "keys"
  | .values => "values"

def Cardinality.name : Cardinality → String
  | .single => "single"
  | .list => "list"
  | .set => "set"

def ElementToken.name : ElementToken → String
  | .id => "id"
  | .label => "label"
  | .key => "key"
  | .value => "value"

instance : Family Scope := ⟨[.global, .local_], fun a => capitalized a.name⟩

instance : Family SortOrder := ⟨[.asc, .desc, .shuffle], fun a => capitalized a.name⟩

instance : Family Pop := ⟨[.first, .last, .all, .mixed], fun a => capitalized a.name⟩

instance : Family Column := ⟨[.keys, .values], fun a => capitalized a.name⟩

instance : Family Cardinality := ⟨[.single, .list, .set], fun a => capitalized a.name⟩

instance : Family ElementToken := ⟨[.id, .label, .key, .value], fun a => capitalized a.name⟩

end PropertyGraph
