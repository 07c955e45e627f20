import PropertyGraph.Proofs.Cypher.Grouping
import PropertyGraph.Proofs.Cypher.Delivery
import PropertyGraph.Proofs.Run.Groups

/-!
Rows with aggregates: one for each group of the rows that reach the clause.
-/

namespace PropertyGraph

open Exec Plan Script

namespace ReturnItem

/-- What an item takes from each row: the argument of an aggregate, or its own value. -/
def input (item : ReturnItem) : Expression :=
  match item.expression with
  | .countAll => .literal (.int 1)
  | .call name _ [argument] =>
      if Expression.isAggregateName name then argument else item.expression
  | e => e

end ReturnItem

namespace Reduce

/-- What an aggregate makes of the values it is given. -/
def aggregate (name : String) (values : List Value) : Value :=
  if name == "count" then .ofNat values.length
  else if name == "collect" then .list values
  else if name == "sum" then sum values
  else if name == "min" then (least? values).getD Value.unknown
  else if name == "max" then (greatest? values).getD Value.unknown
  else (mean? values).getD Value.unknown

/-- The values that an aggregate is given: those that are known, and of equal ones the first if they
must be distinct. -/
def given (once : Bool) (values : List Value) : List Value :=
  let known := values.filter (· ≠ Value.unknown)
  if once then known.eraseDups else known

/-- What an aggregate is to the values it is given: a sum that is an integer is exact, and where the
order leads in no circle there is no smaller value than `min` and no greater one than `max`. -/
structure Describes (name : String) (values : List Value) (found : Value) : Prop where
  sum : name = "sum" → ∀ total, found = .int total → ∃ ints : List Int64,
    values = ints.map .int ∧ total.toInt = (ints.map Int64.toInt).sum
  min : name = "min" → values ≠ [] → Value.Ordered values →
    found ∈ values ∧ ∀ v ∈ values, (found.order v).isLE
  max : name = "max" → values ≠ [] → Value.Ordered values →
    found ∈ values ∧ ∀ v ∈ values, (v.order found).isLE

theorem aggregate_describes (name : String) (values : List Value) :
    Describes name values (aggregate name values) where
  sum := by
    rintro rfl total made
    exact sum_exact made
  min := by
    rintro rfl some_ ordered
    obtain ⟨first, rest, rfl⟩ := List.exists_cons_of_ne_nil some_
    exact least?_isLeast ordered rfl
  max := by
    rintro rfl some_ ordered
    obtain ⟨first, rest, rfl⟩ := List.exists_cons_of_ne_nil some_
    exact greatest?_isGreatest ordered rfl

end Reduce

/-- What an item becomes for a group, from what it takes from each of the rows. -/
def ReturnItem.result (item : ReturnItem) (values : List Value) : Value :=
  match item.expression with
  | .countAll => .ofNat values.length
  | .call name once _ =>
      if Expression.isAggregateName name then Reduce.aggregate name (Reduce.given once values)
      else values.headD Value.unknown
  | _ => values.headD Value.unknown

theorem ReturnItem.result_describes {item : ReturnItem} {name : String} {once : Bool}
    {arguments : List Expression} (shape : item.expression = .call name once arguments)
    (aggregate : Expression.isAggregateName name = true) (values : List Value) :
    Reduce.Describes name (Reduce.given once values) (item.result values) := by
  have found : item.result values = Reduce.aggregate name (Reduce.given once values) := by
    simp only [result, shape, aggregate, if_true]
  exact found ▸ Reduce.aggregate_describes name _

namespace Cypher

variable {names keys : List String} {R : Value → Prop} {inside : Ops}

/-- The members of a group, of which there are some if there are keys. -/
def IsGroupOf (names keys : List String) (v : Value) : Prop :=
  ∃ members, v = .list members ∧ AreRows names members ∧ (keys ≠ [] → members ≠ [])

/-- What the members of a group have in a column. -/
def columnOf (name : String) (group : Value) : List Value :=
  (Application.parts group).map fun row => cellOf row name

theorem unfoldGroup : Brings HasObjects (IsGroupOf names keys) [.append .unfold []] fun v =>
    .ok (Application.parts v) := by
  have opens : Turns (fun _ => True) [.append .unfold []] _ := .unfold
  exact (opens.brings fun _ _ => trivial).congr fun v _ => by simp

theorem cells_brought (distinct : names.Nodup) {name : String} (member : name ∈ names) :
    Brings HasObjects (IsGroupOf names keys) [.append .unfold [], .select [name]] fun v =>
      .ok (columnOf name v) := by
  have cells : Turns (AreRows names) [.select [name]] fun rows => .ok (rows.map (keyOf [name])) :=
    .select distinct (List.cons_ne_nil _ _) fun _ listed => List.mem_singleton.mp listed ▸ member
  have group : Brings HasObjects (IsGroupOf names keys) [.append .unfold []] _ := unfoldGroup
  refine group.follow cells ?_
  rintro _ _ ⟨members, rfl, rows, _⟩ made
  cases made
  exact rows

theorem distinctOps_turn (once : Bool) : Turns (fun _ => True) (distinctOps once) fun values =>
    .ok (if once then values.eraseDups else values) := by
  cases once with
  | true => exact .dedup
  | false => exact .nil

theorem values_brought (distinct : names.Nodup) {name : String} (member : name ∈ names)
    (once : Bool) :
    Brings HasObjects (IsGroupOf names keys)
      ([.append .unfold [], .select [name], isKnown] ++ distinctOps once) fun v =>
        .ok (Reduce.given once (columnOf name v)) := by
  have known : Turns (fun _ => True) [isKnown] _ := .is_ (.neq Value.unknown)
  have cells : Brings HasObjects (IsGroupOf names keys) _ _ := cells_brought distinct member
  have brought := (cells.follow known fun _ _ _ _ => trivial).follow (distinctOps_turn once)
    fun _ _ _ _ => trivial
  refine brought.congr fun v _ => ?_
  have tested : (Predicate.neq Value.unknown).test = fun v => decide (v ≠ Value.unknown) := by
    funext v
    rw [test_neq_unknown, decide_not]
  rw [tested]
  rfl

def aggregated (name : String) (values : List Value) : Except ExecutionFault Value :=
  if name == "count" then .ok (.ofNat values.length)
  else if name == "collect" then .ok (.list values)
  else if name == "sum" then reduced .sum
  else if name == "min" then reduced .min
  else if name == "max" then reduced .max
  else reduced .mean
where
  reduced (kind : StepKind) : Except ExecutionFault Value :=
    (fun found => found.getD Value.unknown) <$> Reduce.reduce? kind values

theorem reduce?_sum {values : List Value} {found : Option Value}
    (made : Reduce.reduce? .sum values = .ok found) : found = some (Reduce.sum values) := by
  simp only [Reduce.reduce?] at made
  split at made
  · cases made
  · exact (Except.ok.inj made).symm

theorem reduce?_mean {values : List Value} {found : Option Value}
    (made : Reduce.reduce? .mean values = .ok found) : found = Reduce.mean? values := by
  simp only [Reduce.reduce?] at made
  split at made
  · cases made
  · exact (Except.ok.inj made).symm

theorem aggregate_of_aggregated {name : String} {values : List Value} {v : Value}
    (made : aggregated name values = .ok v) : Reduce.aggregate name values = v := by
  unfold aggregated aggregated.reduced at made
  unfold Reduce.aggregate
  split at made
  · next named => rw [if_pos named, Except.ok.inj made]
  next unnamed =>
  rw [if_neg unnamed]
  split at made
  · next named => rw [if_pos named, Except.ok.inj made]
  next unnamed =>
  rw [if_neg unnamed]
  split at made
  · next named =>
      obtain ⟨found, reduced, rfl⟩ := map_eq_ok.mp made
      rw [if_pos named, reduce?_sum reduced, Option.getD_some]
  next unnamed =>
  rw [if_neg unnamed]
  split at made
  · next named => rw [if_pos named, ← Except.ok.inj made]
  next unnamed =>
  rw [if_neg unnamed]
  split at made
  · next named => rw [if_pos named, ← Except.ok.inj made]
  next unnamed =>
  rw [if_neg unnamed]
  obtain ⟨found, reduced, rfl⟩ := map_eq_ok.mp made
  rw [reduce?_mean reduced]

theorem reduction_brought (name : String) {h : Value → List Value}
    (brings : Brings HasObjects R inside fun v => .ok (h v)) :
    Brings IsOne R (reduction name inside) fun v => aggregated name (h v) := by
  have counts : Turns (fun _ => True) [.append .count []] _ := .count
  have folds : Turns (fun _ => True) [.append .fold []] _ := .fold
  have reduces {kind : StepKind} (plain : kind.IsPlain) (inner : kind.isEntry = false)
      (runs : ∀ engine stream, Application.perform engine ⟨kind, [], [], []⟩ stream =
        Application.reduce ⟨kind, [], [], []⟩ stream) :
      Brings HasObjects R (inside ++ [.append kind [] inner]) fun v =>
        Option.toList <$> Reduce.reduce? kind (h v) :=
    have turns : Turns (fun _ => True) [.append kind [] inner] _ := .reduce plain inner runs
    brings.follow turns fun _ _ _ _ => trivial
  unfold reduction aggregated
  repeat' split
  · exact (brings.follow counts fun _ _ _ _ => trivial).one fun _ _ => rfl
  · exact (brings.follow folds fun _ _ _ _ => trivial).one fun _ _ => rfl
  · refine (reduces ⟨rfl, by decide⟩ rfl fun _ _ => rfl).one fun v _ => ?_
    simp only [aggregated.reduced]
    cases made : Reduce.reduce? .sum (h v) with
    | error fault => rfl
    | ok found =>
        cases reduce?_sum made
        rfl
  all_goals exact (reduces ⟨rfl, by decide⟩ rfl fun _ _ => rfl).orUnknown

def itemResult (item : ReturnItem) (values : List Value) : Except ExecutionFault Value :=
  match item.expression with
  | .countAll => .ok (.ofNat values.length)
  | .call name once _ =>
      if Expression.isAggregateName name then aggregated name (Reduce.given once values)
      else .ok (values.headD Value.unknown)
  | _ => .ok (values.headD Value.unknown)

theorem result_of_itemResult {item : ReturnItem} {values : List Value} {v : Value}
    (made : itemResult item values = .ok v) : item.result values = v := by
  unfold itemResult at made
  unfold ReturnItem.result
  split at made
  · exact Except.ok.inj made
  · split at made
    · next named => rw [if_pos named, aggregate_of_aggregated made]
    · next unnamed => rw [if_neg unnamed, Except.ok.inj made]
  · exact Except.ok.inj made

/-- What an item becomes for a group is found there, if the items without aggregates are keys. -/
theorem resultOps_brought (distinct : names.Nodup) {item : ReturnItem}
    (member : item.column ∈ names) (keyed : item.expression.isAggregate = false → keys ≠ []) :
    Brings IsOne (IsGroupOf names keys) (resultOps item) fun v =>
      itemResult item (columnOf item.column v) := by
  have first (keyed : keys ≠ []) : Brings IsOne (IsGroupOf names keys) (resultOps.first item)
      fun v => .ok ((columnOf item.column v).headD Value.unknown) := by
    -- Where there are keys a group has a first member; without keys all items are aggregates.
    have one : Turns (fun _ => True) [.limit 1] _ := .limitOne
    have cells : Turns (AreRows names) [.select [item.column]] _ :=
      .select distinct (List.cons_ne_nil _ _) fun _ listed => List.mem_singleton.mp listed ▸ member
    refine ((unfoldGroup.follow one fun _ _ _ _ => trivial).follow cells ?_).one ?_
    · rintro _ _ ⟨members, rfl, rows, _⟩ made
      cases made
      exact fun v listed => rows v (List.mem_of_mem_take listed)
    · rintro _ ⟨members, rfl, _, some_⟩
      obtain ⟨row, rest, rfl⟩ := List.exists_cons_of_ne_nil (some_ keyed)
      rfl
  cases shape : item.expression with
  | countAll =>
      have counts : Turns (fun _ => True) [.append .count []] _ := .count
      simp only [resultOps, itemResult, shape, columnOf, List.length_map]
      exact (unfoldGroup.follow counts fun _ _ _ _ => trivial).one fun _ _ => rfl
  | call name once arguments =>
      simp only [resultOps, itemResult, shape]
      split
      · exact reduction_brought name (values_brought distinct member once)
      · next plain => exact first (keyed (shape ▸ eq_false_of_ne_true plain))
  | _ =>
      simp only [resultOps, itemResult, shape]
      exact first (keyed (shape ▸ rfl))

theorem columnOps_of_inputOps {b : Bindings} {item : ReturnItem} {operations : Ops}
    (compiled : inputOps b item = .ok operations) : columnOps b item.input = .ok operations := by
  have plain {e : Expression} (compiled : inputOps.plain b item e = .ok operations) :
      columnOps b e = .ok operations := by
    unfold inputOps.plain at compiled
    split at compiled
    · cases compiled
    · exact compiled
  cases shape : item.expression with
  | countAll =>
      simp only [inputOps, ReturnItem.input, shape] at compiled ⊢
      exact compiled
  | call name once arguments =>
      simp only [inputOps, ReturnItem.input, shape] at compiled ⊢
      split at compiled
      · next named =>
          rcases arguments with _ | ⟨argument, _ | ⟨other, rest⟩⟩
          · cases compiled
          · simp only [named, if_true]
            exact compiled
          · cases compiled
      · next unnamed =>
          rcases arguments with _ | ⟨argument, _ | ⟨other, rest⟩⟩
          · exact plain compiled
          · simp only [unnamed]
            exact plain compiled
          · exact plain compiled
  | _ =>
      simp only [inputOps, ReturnItem.input, shape] at compiled ⊢
      exact plain compiled

def summaryRow (items : List ReturnItem) (members : List Value) : Value :=
  .record ((items.map ReturnItem.column).zip
    (items.map fun item => item.result (members.map fun row => cellOf row item.column)))

end Cypher

end PropertyGraph
