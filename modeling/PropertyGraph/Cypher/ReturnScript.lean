import PropertyGraph.Cypher.ExpressionScript

/-!
Scripts of RETURN clauses. Rows are maps from column names. Aggregates group the rows by the columns
without one, and every group ends as one row.
-/

namespace PropertyGraph.Cypher

def relationshipColumn : Ops :=
  [.project [elementKey, targetKey, sourceKey],
    .nested .by_ [.of [.append .valueMap [.literal (.bool true)]]],
    .nested .by_ [.of [.append .inV [], .append .id []]],
    .nested .by_ [.of [.append .outV [], .append .id []]]]

/-- A returned column; whole elements come with their properties. -/
def columnOps (b : Bindings) (e : Expression) : Except CompileFault Ops :=
  match e with
  | .reference name => do
      match ← kindOf b name with
      | .node => return [.select [name], .append .valueMap [.literal (.bool true)]]
      | .relationship => return .select [name] :: relationshipColumn
      | .relationships =>
          return [.selectLabel .all name, .append .unfold []] ++ relationshipColumn
            ++ [.append .fold []]
  | e => valueOps b e

def sortOrder (item : SortItem) : SortOrder := if item.descending then .desc else .asc

def resolveAlias (items : List ReturnItem) (e : Expression) : Expression :=
  match e with
  | .reference name =>
      match items.find? fun item => item.alias_ == some name with
      | some item => item.expression
      | none => e
  | e => e

def sortKeys (b : Bindings) (items : List ReturnItem) : List SortItem → Except CompileFault Ops
  | [] => .ok []
  | item :: rest => do
      let key ← valueScript b (resolveAlias items item.expression)
      return .byOrder key (sortOrder item) :: (← sortKeys b items rest)

def columns (b : Bindings) : List ReturnItem → Except CompileFault Ops
  | [] => .ok []
  | item :: rest => do
      let column ← columnOps b item.expression
      return .nested .by_ [.of column] :: (← columns b rest)

def sortColumn (names : List String) (item : SortItem) : Except CompileFault String :=
  let wanted := match item.expression with
    | .reference name => name
    | _ => item.text
  if names.contains wanted then .ok wanted else .error (.unknownSortColumn item.text)

def columnSortKeys (names : List String) : List SortItem → Except CompileFault Ops
  | [] => .ok []
  | item :: rest => do
      let column ← sortColumn names item
      return .byOrder (.of [.select [column]]) (sortOrder item) :: (← columnSortKeys names rest)

def sortRows (names : List String) (order : List SortItem) : Except CompileFault Ops :=
  if order.isEmpty then .ok []
  else do return .append .order [] :: (← columnSortKeys names order)

def distinctOps (distinct : Bool) : Ops := if distinct then [.labelled .dedup []] else []

/-- Rows without aggregates: sorted before they are projected, unless they must be distinct. -/
def plainRows (b : Bindings) (r : ReturnClause) (names : List String) :
    Except CompileFault Ops := do
  let before ←
    if r.distinct || r.order.isEmpty then pure []
    else do pure (.append .order [] :: (← sortKeys b r.items r.order))
  let columns ← columns b r.items
  let after ← if r.distinct then sortRows names r.order else pure []
  return before ++ .project names :: columns ++ distinctOps r.distinct ++ after

/-- What a column gathers from each row. -/
def inputOps (b : Bindings) (item : ReturnItem) : Except CompileFault Ops :=
  match item.expression with
  | .countAll => .ok [.constant (.int 1)]
  | .call name distinct arguments =>
      if Expression.isAggregateName name then
        match arguments with
        | [argument] => columnOps b argument
        | _ => .error (.argumentCount name)
      else plain (.call name distinct arguments)
  | e => plain e
where
  plain (e : Expression) : Except CompileFault Ops :=
    if e.hasAggregate then .error (.nestedAggregate item.text) else columnOps b e

def inputs (b : Bindings) : List ReturnItem → Except CompileFault Ops
  | [] => .ok []
  | item :: rest => do
      let input ← inputOps b item
      return .nested .by_ [.of input] :: (← inputs b rest)

/-- One group for each combination of keys, or a single one without keys. -/
def grouping (keys : List String) : Ops :=
  if keys.isEmpty then [.append .fold []]
  else
    [.append .group [], .nested .by_ [.of [.select keys]], .nested .by_ [.of [.append .fold []]],
      .selectColumn .values, .append .unfold []]

/-- Reduces the known values of a column; some reductions of nothing are unknown. -/
def reduction (name : String) (values : Ops) : Ops :=
  if name == "count" then values ++ [.append .count []]
  else if name == "collect" then values ++ [.append .fold []]
  else if name == "sum" then values ++ [.append .sum []]
  else if name == "min" then orUnknown (.append .min [])
  else if name == "max" then orUnknown (.append .max [])
  else orUnknown (.append .mean [])
where
  orUnknown (op : Op Script) : Ops :=
    [.nested .coalesce [.of (values ++ [op]), .of [.constant Value.unknown]]]

/-- What a column becomes for a whole group. -/
def resultOps (item : ReturnItem) : Ops :=
  match item.expression with
  | .countAll => [.append .unfold [], .append .count []]
  | .call name distinct _ =>
      if Expression.isAggregateName name then
        reduction name ([.append .unfold [], .select [item.column], isKnown]
          ++ distinctOps distinct)
      else first
  | _ => first
where
  first : Ops := [.append .unfold [], .limit 1, .select [item.column]]

def aggregatedRows (b : Bindings) (r : ReturnClause) (names : List String) :
    Except CompileFault Ops := do
  let inputs ← inputs b r.items
  let keys := (r.items.filter fun item => !item.expression.isAggregate).map ReturnItem.column
  let results := r.items.map fun item => .nested .by_ [.of (resultOps item)]
  let order ← sortRows names r.order
  return .project names :: inputs ++ grouping keys ++ .project names :: results
    ++ distinctOps r.distinct ++ order

def repeatedName? : List String → List String → Option String
  | _, [] => none
  | seen, name :: rest =>
      if seen.contains name then some name else repeatedName? (name :: seen) rest

def windowOps (r : ReturnClause) : Ops :=
  (r.skip.map fun n => .append .skip [.literal (.int n)]).toList ++ (r.limit.map .limit).toList

def returnOps (b : Bindings) (r : ReturnClause) : Except CompileFault Ops := do
  let names := r.items.map ReturnItem.column
  match repeatedName? [] names with
  | some name => throw (.duplicateColumn name)
  | none =>
      let rows ←
        if r.items.any fun item => item.expression.hasAggregate then aggregatedRows b r names
        else plainRows b r names
      return rows ++ windowOps r

end PropertyGraph.Cypher
