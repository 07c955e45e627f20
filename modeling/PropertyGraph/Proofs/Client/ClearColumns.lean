import PropertyGraph.Proofs.Client.Clear
import PropertyGraph.Proofs.Cypher.Condition
import PropertyGraph.Proofs.Cypher.Precedence

/-!
Columns of clear values. Where no property of the graph has a null inside or a key with a meaning of
its own, and no constant is written with one, all that is computed is clear: an unknown value is the
same wherever it comes from.
-/

namespace PropertyGraph

open Cypher Dictionary

/-- Keys of properties that are taken for something else in the description of an element. -/
def Normalize.elementKeys : List String := nodeKeys ++ relationshipKeys

theorem absent_cells {entries : List (String × Value)} {key : String}
    (free : key ∉ entries.map (·.1)) :
    Value.string key ∉ (cells (ofEntries entries)).map (·.1) := by
  rw [cells_keys]
  intro member
  obtain ⟨name, listed, same⟩ := List.mem_map.mp member
  refine absurd (get?_isSome.mpr (Value.string.inj same ▸ listed)) ?_
  rw [ofEntries, get?_putAll_others free]
  exact Bool.false_ne_true

theorem Normalize.startsAsElement_absent {entries : List (Value × Value)}
    (absent : Value.string "_type" ∉ entries.map (·.1)) : startsAsElement entries = false := by
  cases entries with
  | nil => rfl
  | cons entry rest =>
      obtain ⟨key, v⟩ := entry
      rw [List.map_cons, List.mem_cons, not_or] at absent
      rw [startsAsElement, decide_eq_false (Ne.symm absent.1), Bool.false_and]

namespace Value

variable {v w : Value}

theorem areClear_iff {items : List Value} :
    areClear items = true ↔ ∀ v ∈ items, v.isClear = true := by
  induction items with
  | nil => simp [areClear]
  | cons v rest ih => simp [areClear, ih]

theorem entriesClear_iff {entries : List (Value × Value)} :
    entriesClear entries = true ↔ ∀ entry ∈ entries, entry.2.isClear = true := by
  induction entries with
  | nil => simp [entriesClear]
  | cons entry rest ih =>
      obtain ⟨key, v⟩ := entry
      rw [entriesClear, Bool.and_eq_true, ih, List.forall_mem_cons]
      exact Iff.rfl

theorem clear_of_isAtom (atom : v.isAtom = true) : v.isClear = true := by
  cases v with
  | bool | int | float | string => rfl
  | _ => cases atom

/-- Keys of maps that are taken for no element, and that no element becomes. -/
def keysClear (keys : List String) : Bool :=
  Cypher.elementKey ∉ keys && "_type" ∉ keys && ("~id" ∉ keys || "~label" ∉ keys)

theorem record_clear {entries : List (String × Value)} (keys : keysClear (entries.map (·.1)) = true)
    (all : ∀ entry ∈ entries, entry.2.isClear = true) : (record entries).isClear = true := by
  simp only [keysClear, Bool.and_eq_true, Bool.or_eq_true, decide_eq_true_eq] at keys
  obtain ⟨⟨element, kind⟩, tokens⟩ := keys
  rw [record_eq]
  refine Bool.and_eq_true_iff.mpr ⟨Normalize.isPlain_iff.mpr ⟨absent_cells element, ?_, ?_⟩, ?_⟩
  · refine Bool.and_eq_false_iff.mpr (tokens.imp (fun free => ?_) fun free => ?_)
    · exact congrArg Option.isSome (get?_eq_none (absent_cells free))
    · exact congrArg Option.isSome (get?_eq_none (absent_cells free))
  · exact Normalize.startsAsElement_absent (absent_cells kind)
  · exact entriesClear_iff.mpr (List.forall_mem_map.mpr
      (ofEntries_spec (P := fun v => v.isClear = true) all).2)

end Value

namespace Function

variable {f : Function} {v w result : Value}

theorem add_clear (left : v.isClear = true) (right : w.isClear = true)
    (applied : add v w = .ok result) : result.isClear = true := by
  obtain atom | ⟨items, rfl, rfl | ⟨others, rfl, rfl⟩⟩ := add_result applied
  · exact Value.clear_of_isAtom atom
  · refine Value.areClear_iff.mpr (List.forall_mem_append.mpr ⟨Value.areClear_iff.mp left, ?_⟩)
    exact List.forall_mem_singleton.mpr right
  · exact Value.areClear_iff.mpr (List.forall_mem_append.mpr
      ⟨Value.areClear_iff.mp left, Value.areClear_iff.mp right⟩)

theorem apply_clear (clear : v.isClear = true) (applied : f.apply v = .ok result) :
    result.isClear = true := by
  obtain atom | ⟨left, right, rfl, added⟩ := apply_result applied
  · exact Value.clear_of_isAtom atom
  · have operands := Value.areClear_iff.mp clear
    exact add_clear (operands left (by simp)) (operands right (by simp)) added

end Function

namespace Expression

mutual

/-- Constants are written clear, and so are the keys of maps. -/
def isClear : Expression → Bool
  | .literal v => v.isNull || v.isClear
  | .reference _ | .property _ _ | .countAll => true
  | .list items => areClear items
  | .map entries => Value.keysClear (entries.map (·.1)) && entriesClear entries
  | .binary left _ right => left.isClear && right.isClear
  | .not operand | .negate operand | .isNull operand | .isNotNull operand => operand.isClear
  | .call _ _ arguments => areClear arguments

def areClear : List Expression → Bool
  | [] => true
  | e :: rest => e.isClear && areClear rest

def entriesClear : List (String × Expression) → Bool
  | [] => true
  | entry :: rest => entryClear entry && entriesClear rest

def entryClear : String × Expression → Bool
  | (_, e) => e.isClear

end

end Expression

/-- No property of an element has a key with a meaning of its own, and all are clear. -/
structure Graph.StoresClear (g : Graph) : Prop where
  vertices : ∀ v ∈ g.vertices, v.properties.Avoids Normalize.elementKeys ∧
    ∀ w ∈ v.properties.values, w.isClear = true
  edges : ∀ e ∈ g.edges, e.properties.Avoids Normalize.elementKeys ∧
    ∀ w ∈ e.properties.values, w.isClear = true

/-- What the variables stand for is clear, and so is what the graph stores. -/
structure Environment.Clear (env : Environment) : Prop where
  bindings : ∀ name v, env.value? name = some v → v.isClear = true
  stores : env.graph.StoresClear

namespace Graph.StoresClear

variable {g : Graph} {owner v : Value} {known : Properties} {key : String}

theorem properties (stores : g.StoresClear) (found : g.propertiesOf owner = .ok known) :
    known.Avoids Normalize.elementKeys ∧ ∀ w ∈ known.values, w.isClear = true := by
  unfold propertiesOf at found
  split at found
  · split at found
    · next vertex present =>
        cases found
        exact stores.vertices vertex (List.mem_of_find?_eq_some present)
    · cases found
  · split at found
    · next edge present =>
        cases found
        exact stores.edges edge (List.mem_of_find?_eq_some present)
    · cases found
  · cases found

theorem property (stores : g.StoresClear) (found : g.propertiesOf owner = .ok known) :
    ((get? key known).getD Value.unknown).isClear = true := by
  cases stored : get? key known with
  | none => rfl
  | some v => exact (stores.properties found).2 v (get?_mem stored)

end Graph.StoresClear

namespace Expression

variable {env : Environment}

theorem scalarValue_clear {g : Graph} {name : String} {operand v : Value}
    (clear : operand.isClear = true) (found : scalarValue g name operand = .ok v) :
    v.isClear = true := by
  have applied {f : Function} (found : f.value operand = .ok v) : v.isClear = true :=
    Function.apply_clear clear (Function.value_eq_ok.mp found)
  unfold scalarValue at found
  split at found
  case h_1 => cases operand <;> cases found <;> rfl
  case h_2 => cases operand <;> cases found <;> rfl
  case h_3 =>
    obtain ⟨label, named, same⟩ := bind_eq_ok.mp found
    cases same
    cases operand <;> cases named <;> rfl
  case h_4 =>
    obtain ⟨properties, _, same⟩ := bind_eq_ok.mp found
    cases same
    exact Value.areClear_iff.mpr (List.forall_mem_map.mpr fun _ _ => rfl)
  case h_10 =>
    cases found
    rfl
  all_goals exact applied found

theorem reference_clear (clear : env.Clear) (name : String) :
    ((env.value? name).getD Value.unknown).isClear = true := by
  cases found : env.value? name with
  | none => rfl
  | some v => exact clear.bindings name v found

mutual

theorem evaluate_clear (clear : env.Clear) : (e : Expression) → e.isClear = true →
    {v : Value} → e.evaluate env = .ok v → v.isClear = true
  | .literal w, written, v, found => by
      rw [evaluate] at found
      cases found
      split
      · rfl
      · next known =>
          refine (Bool.or_eq_true_iff.mp written).resolve_left fun null => known ?_
          cases w with
          | null => rfl
          | _ => cases null
  | .reference name, _, v, found => Except.ok.inj found ▸ reference_clear clear name
  | .property owner key, _, v, found => by
      obtain ⟨properties, known, same⟩ := bind_eq_ok.mp found
      cases same
      exact clear.stores.property known
  | .list items, written, v, found => by
      obtain ⟨values, known, same⟩ := bind_eq_ok.mp found
      cases same
      exact evaluateAll_clear clear items written known
  | .map entries, written, v, found => by
      obtain ⟨values, known, same⟩ := bind_eq_ok.mp found
      cases same
      obtain ⟨keys, inside⟩ := Bool.and_eq_true_iff.mp written
      obtain ⟨named, all⟩ := evaluateEntries_clear clear entries inside known
      exact Value.record_clear (named ▸ keys) all
  | .binary left op right, written, v, found => by
      obtain ⟨first, second⟩ := Bool.and_eq_true_iff.mp written
      obtain ⟨x, known, found⟩ := bind_eq_ok.mp found
      have operand := evaluate_clear clear left first known
      split at found
      · obtain ⟨y, known, found⟩ := bind_eq_ok.mp found
        have other := evaluate_clear clear right second known
        refine Function.apply_clear ?_ (Function.value_eq_ok.mp found)
        exact Value.areClear_iff.mpr (by simp [operand, other])
      · split at found <;> cases found
        · unfold tested
          split <;> rfl
        · rfl
  | .not operand, written, v, found => by
      obtain ⟨x, known, found⟩ := bind_eq_ok.mp found
      exact Function.apply_clear (evaluate_clear clear operand written known)
        (Function.value_eq_ok.mp found)
  | .negate operand, written, v, found => by
      obtain ⟨x, known, found⟩ := bind_eq_ok.mp found
      refine Function.apply_clear ?_ (Function.value_eq_ok.mp found)
      have value := evaluate_clear clear operand written known
      exact Value.areClear_iff.mpr (by simp [value, Value.isClear])
  | .isNull operand, written, v, found | .isNotNull operand, written, v, found => by
      obtain ⟨x, known, same⟩ := bind_eq_ok.mp found
      cases same
      rfl
  | .call name _ arguments, written, v, found => by
      obtain ⟨values, known, found⟩ := bind_eq_ok.mp found
      have operands := evaluateAll_clear clear arguments written known
      split at found
      · exact scalarValue_clear (Value.areClear_iff.mp operands _ List.mem_cons_self) found
      · cases found
        rfl
  | .countAll, _, v, found => by
      cases found
      rfl

theorem evaluateAll_clear (clear : env.Clear) : (items : List Expression) →
    areClear items = true → {values : List Value} → evaluateAll env items = .ok values →
      Value.areClear values = true
  | [], _, values, found => by
      cases found
      rfl
  | e :: rest, written, values, found => by
      obtain ⟨first, others⟩ := Bool.and_eq_true_iff.mp written
      obtain ⟨v, known, found⟩ := bind_eq_ok.mp found
      obtain ⟨more, several, same⟩ := bind_eq_ok.mp found
      cases same
      exact Bool.and_eq_true_iff.mpr
        ⟨evaluate_clear clear e first known, evaluateAll_clear clear rest others several⟩

theorem evaluateEntries_clear (clear : env.Clear) : (entries : List (String × Expression)) →
    entriesClear entries = true → {values : List (String × Value)} →
      evaluateEntries env entries = .ok values →
        values.map (·.1) = entries.map (·.1) ∧ ∀ entry ∈ values, entry.2.isClear = true
  | [], _, values, found => by
      cases found
      exact ⟨rfl, List.forall_mem_nil _⟩
  | entry :: rest, written, values, found => by
      obtain ⟨first, others⟩ := Bool.and_eq_true_iff.mp written
      obtain ⟨v, known, found⟩ := bind_eq_ok.mp found
      obtain ⟨more, several, same⟩ := bind_eq_ok.mp found
      cases same
      obtain ⟨named, here⟩ := evaluateEntry_clear clear entry first known
      obtain ⟨names, later⟩ := evaluateEntries_clear clear rest others several
      exact ⟨congrArg₂ List.cons named names, List.forall_mem_cons.mpr ⟨here, later⟩⟩

theorem evaluateEntry_clear (clear : env.Clear) : (entry : String × Expression) →
    entryClear entry = true → {value : String × Value} → evaluateEntry env entry = .ok value →
      value.1 = entry.1 ∧ value.2.isClear = true
  | (key, e), written, value, found => by
      obtain ⟨v, known, same⟩ := bind_eq_ok.mp found
      cases same
      exact ⟨rfl, evaluate_clear clear e written known⟩

end

end Expression

namespace Dictionary

variable {κ α : Type} [DecidableEq κ] {front d : Dictionary κ α}

theorem put_behind {key : κ} (other : key ∉ front.map (·.1)) (v : α) :
    put key v (front ++ d) = front ++ put key v d := by
  induction front with
  | nil => rfl
  | cons entry rest ih =>
      obtain ⟨k, old⟩ := entry
      rw [List.map_cons, List.mem_cons, not_or] at other
      rw [List.cons_append, put, if_neg (Ne.symm other.1), ih other.2]
      rfl

theorem putAll_behind {entries : List (κ × α)}
    (others : ∀ entry ∈ entries, entry.1 ∉ front.map (·.1)) :
    putAll (front ++ d) entries = front ++ putAll d entries := by
  induction entries generalizing d with
  | nil => rfl
  | cons entry rest ih =>
      obtain ⟨first, others⟩ := List.forall_mem_cons.mp others
      have step : putAll (front ++ d) (entry :: rest) =
        putAll (put entry.1 entry.2 (front ++ d)) rest := rfl
      rw [step, put_behind first, ih others]
      rfl

end Dictionary

namespace Normalize

/-- An element with clear properties is described by all of them. -/
theorem description_of_clear {reserved : List String} {id label : Value} {properties : Properties}
    (within : ∀ key ∈ reserved, key ∈ elementKeys) (free : properties.Avoids elementKeys)
    (clear : ∀ w ∈ properties.values, w.isClear = true) :
    isDescription reserved (elementEntries id label properties) = true := by
  have tokens_within : ∀ key ∈ tokenKeys, key ∈ elementKeys := by decide
  have others : ∀ entry ∈ properties, entry.1 ∉ (tokens id label).map (·.1) :=
    fun entry member token =>
      free entry.1 (tokens_within entry.1 token) (List.mem_map_of_mem member)
  have entries : elementEntries id label properties =
      (idKey, id) :: (labelKey, label) :: cells (ofEntries properties) := by
    have written : ofEntries (tokens id label ++ properties) =
        tokens id label ++ ofEntries properties := by
      have behind := putAll_behind (d := []) others
      rw [List.append_nil] at behind
      rw [ofEntries, putAll, List.foldl_append]
      exact behind
    have made := putAll_cells [] (tokens id label ++ properties)
    exact made.trans (congrArg cells written)
  have each : ∀ entry ∈ properties, entry.2.isClear = true :=
    fun entry member => clear entry.2 (List.mem_map_of_mem member)
  obtain ⟨distinct, values⟩ := ofEntries_spec (P := fun v => v.isClear = true) each
  rw [entries, isDescription]
  simp only [Bool.and_eq_true, decide_eq_true_eq, List.all_eq_true, true_and]
  refine ⟨⟨?_, fun key listed => absent_cells (free key (within key listed))⟩, ?_⟩
  · rw [cells_keys]
    exact distinct.map fun _ _ same => Value.string.inj same
  · exact Value.entriesClear_iff.mpr (List.forall_mem_map.mpr values)

end Normalize

/-- What the column of an expression is. -/
def Expression.cellKind (b : Bindings) : Expression → CellKind
  | .reference name =>
      match get? name b with
      | some .node => .node
      | some .relationship => .relationship
      | _ => .list .relationship
  | _ => .value

namespace CellKind

variable {g : Graph} {v described : Value}

theorem node_described (stores : g.StoresClear) (found : g.describe v = .ok described) :
    node.admits described = true := by
  obtain ⟨id, label, properties, _, _, known, rfl⟩ := Graph.describe_eq_ok found
  obtain ⟨free, clear⟩ := stores.properties known
  exact Normalize.description_of_clear (by decide) free clear

theorem relationship_described (stores : g.StoresClear)
    (found : g.describeEdge v = .ok described) : relationship.admits described = true := by
  have edge : ∃ e, v = .edge e := by
    obtain ⟨_, _, found⟩ := bind_eq_ok.mp found
    obtain ⟨_, ended, _⟩ := bind_eq_ok.mp found
    obtain ⟨_, ended, _⟩ := bind_eq_ok.mp ended
    cases v with
    | edge e => exact ⟨e, rfl⟩
    | _ => cases ended
  obtain ⟨e, rfl⟩ := edge
  obtain ⟨properties, known, rfl⟩ := Graph.describeEdge_eq_ok found
  obtain ⟨free, clear⟩ := stores.properties known
  rw [Normalize.record_projection, admits]
  simp only [decide_true, Bool.true_and]
  exact Normalize.description_of_clear (by decide) free clear

end CellKind

/-- The columns of a clear graph are clear for variables that stand for clear values. -/
theorem columnValue_clear {b : Bindings} {g : Graph} {t : Traverser} (stores : g.StoresClear)
    (bound : ∀ name, ∀ v ∈ t.labelled name, v.isClear = true) {e : Expression}
    (written : e.isClear = true) {v : Value} (found : columnValue b (.onPath b g t) e = .ok v) :
    (e.cellKind b).holds v = true := by
  refine CellKind.holds_iff.mpr (.inr ?_)
  have clear : (Environment.onPath b g t).Clear := by
    refine ⟨fun name w stands => ?_, stores⟩
    simp only [Environment.onPath] at stands
    split at stands
    · cases stands
    · cases stands
      exact Value.areClear_iff.mpr (bound name)
    · exact bound name w (List.mem_of_getLast? stands)
  cases e with
  | reference name =>
      simp only [columnValue, Expression.cellKind] at found ⊢
      generalize get? name b = kind at found ⊢
      have described {items : Value} (each : Value.list <$>
          (Application.parts (((Environment.onPath b g t).value? name).getD Value.unknown)).mapM
            g.describeEdge = .ok items) : (CellKind.list .relationship).admits items = true := by
        obtain ⟨cells, described, rfl⟩ := map_eq_ok.mp each
        exact List.all_eq_true.mpr (forall_left (mapM_eq_ok.mp described).flip
          fun _ _ found => CellKind.relationship_described stores found)
      rcases kind with _ | _ | _ | _
      · exact described found
      · exact CellKind.node_described stores found
      · exact CellKind.relationship_described stores found
      · exact described found
  | _ => exact Expression.evaluate_clear clear _ written found

end PropertyGraph
