import PropertyGraph.Program.Family

/-!
The kinds of steps. Modulators configure a neighbouring step instead of processing the stream; loop
modulators may stand before the loop that they configure.
-/

namespace PropertyGraph

inductive StepKind where
  | v
  | e
  | addV
  | addE
  | aggregate
  | and
  | as_
  | barrier
  | bothE
  | by_
  | cap
  | choose
  | coalesce
  | constant
  | count
  | dedup
  | drop
  | emit
  | flatMap
  | fold
  | from_
  | group
  | has
  | hasKey
  | hasLabel
  | hasNot
  | id
  | identity
  | inE
  | inV
  | index
  | inject
  | is_
  | key
  | label
  | limit
  | local_
  | loops
  | map
  | math
  | max
  | mean
  | min
  | not
  | option
  | optional
  | or
  | order
  | otherV
  | outE
  | outV
  | path
  | project
  | properties
  | property
  | range
  | repeat_
  | select
  | sideEffect
  | simplePath
  | skip
  | sum
  | tail
  | times
  | to_
  | unfold
  | union
  | until_
  | value
  | valueMap
  | values
  | where_
  | with_
deriving DecidableEq

namespace StepKind

def name : StepKind → String
  | .v => "V"
  | .e => "E"
  | .addV => "addV"
  | .addE => "addE"
  | .aggregate => "aggregate"
  | .and => "and"
  | .as_ => "as"
  | .barrier => "barrier"
  | .bothE => "bothE"
  | .by_ => "by"
  | .cap => "cap"
  | .choose => "choose"
  | .coalesce => "coalesce"
  | .constant => "constant"
  | .count => "count"
  | .dedup => "dedup"
  | .drop => "drop"
  | .emit => "emit"
  | .flatMap => "flatMap"
  | .fold => "fold"
  | .from_ => "from"
  | .group => "group"
  | .has => "has"
  | .hasKey => "hasKey"
  | .hasLabel => "hasLabel"
  | .hasNot => "hasNot"
  | .id => "id"
  | .identity => "identity"
  | .inE => "inE"
  | .inV => "inV"
  | .index => "index"
  | .inject => "inject"
  | .is_ => "is"
  | .key => "key"
  | .label => "label"
  | .limit => "limit"
  | .local_ => "local"
  | .loops => "loops"
  | .map => "map"
  | .math => "math"
  | .max => "max"
  | .mean => "mean"
  | .min => "min"
  | .not => "not"
  | .option => "option"
  | .optional => "optional"
  | .or => "or"
  | .order => "order"
  | .otherV => "otherV"
  | .outE => "outE"
  | .outV => "outV"
  | .path => "path"
  | .project => "project"
  | .properties => "properties"
  | .property => "property"
  | .range => "range"
  | .repeat_ => "repeat"
  | .select => "select"
  | .sideEffect => "sideEffect"
  | .simplePath => "simplePath"
  | .skip => "skip"
  | .sum => "sum"
  | .tail => "tail"
  | .times => "times"
  | .to_ => "to"
  | .unfold => "unfold"
  | .union => "union"
  | .until_ => "until"
  | .value => "value"
  | .valueMap => "valueMap"
  | .values => "values"
  | .where_ => "where"
  | .with_ => "with"

def all : List StepKind :=
  [.v, .e, .addV, .addE, .aggregate, .and, .as_, .barrier, .bothE, .by_, .cap, .choose,
  .coalesce, .constant, .count, .dedup, .drop, .emit, .flatMap, .fold, .from_, .group, .has,
  .hasKey, .hasLabel, .hasNot, .id, .identity, .inE, .inV, .index, .inject, .is_, .key, .label,
  .limit, .local_, .loops, .map, .math, .max, .mean, .min, .not, .option, .optional, .or,
  .order, .otherV, .outE, .outV, .path, .project, .properties, .property, .range, .repeat_,
  .select, .sideEffect, .simplePath, .skip, .sum, .tail, .times, .to_, .unfold, .union, .until_,
  .value, .valueMap, .values, .where_, .with_]

def isModulator : StepKind → Bool
  | .by_ | .from_ | .to_ | .option | .times | .until_ | .emit | .with_ => true
  | _ => false

def isLoopModulator : StepKind → Bool
  | .times | .until_ | .emit => true
  | _ => false

/-- Steps that may start a traversal at the graph. -/
def isEntry : StepKind → Bool
  | .v | .e | .addV => true
  | _ => false

end StepKind

instance : Family StepKind := ⟨StepKind.all, fun kind => capitalized kind.name⟩

end PropertyGraph
