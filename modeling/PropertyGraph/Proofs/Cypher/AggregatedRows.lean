import PropertyGraph.Proofs.Cypher.Aggregation
import PropertyGraph.Proofs.Cypher.Delivery
import PropertyGraph.Proofs.Graph.Labels

/-!
Rows with aggregates: one for each group of the traversers that reach the clause, in terms of what
the items of the clause take from each of them.
-/

namespace PropertyGraph

open Exec Plan Script

/-- An item without an aggregate becomes what it is for the first of a group. -/
theorem ReturnItem.result_plain {item : ReturnItem} (plain : item.expression.isAggregate = false)
    (values : List Value) : item.result values = values.headD Value.unknown := by
  cases shape : item.expression with
  | countAll =>
      rw [shape] at plain
      cases plain
  | call name once arguments =>
      rw [shape] at plain
      simp only [result, shape]
      exact if_neg (Bool.eq_false_iff.mp plain)
  | _ => simp only [result, shape]

namespace ReturnClause

variable {α : Type}

/-- Inputs with the same values of the keys, in order of the first of each, or all of them if there
are no keys. -/
def groups (r : ReturnClause) (cell : α → ReturnItem → Value) (inputs : List α) : List (List α) :=
  if r.keys.isEmpty then [inputs]
  else (inputs.map fun t => r.keys.map (cell t)).eraseDups.map fun tuple =>
    inputs.filter fun t => r.keys.map (cell t) = tuple

/-- What an item becomes for a group. -/
def outcome (cell : α → ReturnItem → Value) (members : List α) (item : ReturnItem) : Value :=
  item.result (members.map fun t => cell t item)

variable {r : ReturnClause} {cell : α → ReturnItem → Value} {inputs : List α}

/-- All inputs of a group have the values of the keys that the group ends up with. -/
theorem outcome_keys {tuple : List Value}
    (taken : tuple ∈ inputs.map fun t => r.keys.map (cell t)) :
    r.keys.map (outcome cell (inputs.filter fun t => r.keys.map (cell t) = tuple)) = tuple := by
  obtain ⟨t, member, same⟩ := List.mem_map.mp taken
  have kept : t ∈ inputs.filter fun t => r.keys.map (cell t) = tuple :=
    List.mem_filter.mpr ⟨member, decide_eq_true same⟩
  obtain ⟨first, rest, found⟩ := List.exists_cons_of_ne_nil (List.ne_nil_of_mem kept)
  have among : first ∈ inputs.filter fun t => r.keys.map (cell t) = tuple :=
    found ▸ List.mem_cons_self
  refine Eq.trans (List.map_congr_left fun item listed => ?_)
    (of_decide_eq_true (List.mem_filter.mp among).2)
  have plain : item.expression.isAggregate = false := by
    simpa using (List.mem_filter.mp listed).2
  rw [outcome, item.result_plain plain, found]
  rfl

end ReturnClause

namespace Cypher

variable {items : List ReturnItem} {value other : ReturnItem → Value}

theorem cellOf_rowOf (distinct : (items.map ReturnItem.column).Nodup) {item : ReturnItem}
    (member : item ∈ items) : cellOf (rowOf items value) item.column = value item := by
  have keys := (rowOf_columns items value).symm ▸ distinct
  have found : Dictionary.get? item.column (items.map fun item => (item.column, value item)) =
      some (value item) :=
    (Dictionary.get?_eq_some_iff keys).mpr (List.mem_map_of_mem member)
  rw [cellOf, rowOf, cellOf_record keys, found, Option.getD_some]

theorem rowOf_inj (distinct : (items.map ReturnItem.column).Nodup)
    (same : rowOf items value = rowOf items other) : ∀ item ∈ items, value item = other item := by
  have entries := record_inj ((rowOf_columns items value).symm ▸ distinct)
    ((rowOf_columns items other).symm ▸ distinct) same
  exact fun item member => congrArg Prod.snd (List.map_inj_left.mp entries item member)

theorem areRows_rowOf {α : Type} (cell : α → ReturnItem → Value) (inputs : List α) :
    AreRows (items.map ReturnItem.column) (inputs.map fun t => rowOf items (cell t)) := by
  intro v member
  obtain ⟨t, _, rfl⟩ := List.mem_map.mp member
  exact ⟨_, rfl, rowOf_columns items (cell t)⟩

end Cypher

namespace ReturnClause

open Cypher

variable {α : Type} {r : ReturnClause} {cell : α → ReturnItem → Value} {inputs : List α}

/-- The rows of a clause with aggregates. -/
def summary (r : ReturnClause) (cell : α → ReturnItem → Value) (inputs : List α) : List Value :=
  (r.groups cell inputs).map fun members => rowOf r.items (outcome cell members)

theorem summary_nodup (distinct : (r.items.map ReturnItem.column).Nodup) :
    (r.summary cell inputs).Nodup := by
  unfold summary groups
  split
  · exact List.nodup_singleton _
  · rw [List.map_map]
    refine List.Nodup.map_on ?_ (eraseDups_nodup _)
    intro tuple taken other taken' same
    have values := rowOf_inj distinct same
    rw [← outcome_keys (List.mem_eraseDups.mp taken), ← outcome_keys (List.mem_eraseDups.mp taken')]
    exact List.map_congr_left fun item listed => values item (List.mem_of_mem_filter listed)

theorem keyOf_rowOf (distinct : (r.items.map ReturnItem.column).Nodup)
    (value : ReturnItem → Value) :
    keyOf (r.keys.map ReturnItem.column) (rowOf r.items value) =
      keyFrom (r.keys.map ReturnItem.column) (r.keys.map value) := by
  rw [keyOf, List.map_map]
  exact congrArg _ (List.map_congr_left fun item listed =>
    cellOf_rowOf distinct (List.mem_of_mem_filter listed))

/-- Rows are grouped as the inputs they come from. -/
theorem groupsOf_rows (distinct : (r.items.map ReturnItem.column).Nodup) :
    groupsOf (r.keys.map ReturnItem.column) (inputs.map fun t => rowOf r.items (cell t)) =
      (r.groups cell inputs).map fun members => members.map fun t => rowOf r.items (cell t) := by
  have keys : (r.keys.map ReturnItem.column).Nodup :=
    distinct.sublist (List.filter_sublist.map _)
  have apart {first second : List Value} (lengths : first.length = r.keys.length)
      (lengths' : second.length = r.keys.length) :
      keyFrom (r.keys.map ReturnItem.column) first =
        keyFrom (r.keys.map ReturnItem.column) second → first = second :=
    keyFrom_inj keys (lengths.trans (List.length_map _).symm)
      (lengths'.trans (List.length_map _).symm)
  unfold groupsOf groups
  rw [List.isEmpty_map]
  split
  · rfl
  · -- Rows have equal keys just if the tuples they come from are equal.
    have tuples : (inputs.map fun t => rowOf r.items (cell t)).map
        (keyOf (r.keys.map ReturnItem.column)) =
          (inputs.map fun t => r.keys.map (cell t)).map
            (keyFrom (r.keys.map ReturnItem.column)) := by
      rw [List.map_map, List.map_map]
      exact List.map_congr_left fun t _ => keyOf_rowOf distinct (cell t)
    have lengths {tuple : List Value} (taken : tuple ∈ inputs.map fun t => r.keys.map (cell t)) :
        tuple.length = r.keys.length := by
      obtain ⟨t, _, rfl⟩ := List.mem_map.mp taken
      exact List.length_map _
    rw [tuples, eraseDups_map fun _ taken _ taken' => apart (lengths taken) (lengths taken'),
      List.map_map, List.map_map]
    refine List.map_congr_left fun tuple taken => ?_
    simp only [Function.comp_apply, List.filter_map]
    refine congrArg _ (List.filter_congr fun t _ => ?_)
    simp only [Function.comp_apply, keyOf_rowOf distinct, decide_eq_decide]
    exact ⟨apart (List.length_map _) (lengths (List.mem_eraseDups.mp taken)), congrArg _⟩

theorem summaryRow_rows (distinct : (r.items.map ReturnItem.column).Nodup) (members : List α) :
    summaryRow r.items (members.map fun t => rowOf r.items (cell t)) =
      rowOf r.items (outcome cell members) := by
  rw [summaryRow, List.zip_map', rowOf]
  refine congrArg _ (List.map_congr_left fun item listed => ?_)
  rw [List.map_map, outcome]
  refine congrArg (fun values => (item.column, item.result values)) ?_
  exact List.map_congr_left fun t _ => cellOf_rowOf distinct listed

end ReturnClause

namespace Cypher

variable {world : World} {b : Bindings} {operations : Ops} {l l' : Live} {names keys : List String}
  {items : List ReturnItem}

theorem Turns.delivers {Pre : List Value → Prop}
    {f : List Value → Except ExecutionFault (List Value)} (turns : Turns Pre operations f) :
    Delivers world (fun stream => Pre (objects stream)) operations fun stream out =>
      f (objects stream) = .ok (objects out) := by
  obtain ⟨stages, builds, run⟩ := turns
  refine ⟨stages, builds, fun engine stream holds => ?_⟩
  refine (Obtains.of_shows (run engine world stream holds)).imp ?_
  rintro out ⟨values, same, rfl⟩
  exact same

/-- What an item takes from a traverser, if it can. -/
def taken (world : World) (b : Bindings) (t : Traverser) (item : ReturnItem) : Value :=
  obtained (columnValue b (.onPath b world.store.graph t) item.input)

theorem rows_of_isRecord {stream out : Stream}
    (stand : List.Forall₂ (fun t u => IsRecord (items.map ReturnItem.column)
      (itemValues world b (fun item env => columnValue b env item.input) items t) u) stream out) :
    (∀ t ∈ stream, ∀ item ∈ items, columnValue b (.onPath b world.store.graph t) item.input =
      .ok (taken world b t item)) ∧
        objects out = stream.map fun t => rowOf items (taken world b t) := by
  induction stand with
  | nil => exact ⟨nofun, rfl⟩
  | cons first _ ih =>
      exact ⟨List.forall_mem_cons.mpr ⟨first.rowOf.1, ih.1⟩,
        congrArg₂ List.cons first.rowOf.2 ih.2⟩

theorem inputs_deliver (quiet : world.sideEffects = [])
    (named : items.map ReturnItem.column ≠ []) {bys : Ops}
    (compiled : inputs b items = .ok bys) (performed : performAll bys l = .ok l') :
    Delivers world (Known b []) (.project (items.map ReturnItem.column) :: bys) fun stream out =>
      (∀ t ∈ stream, ∀ item ∈ items, columnValue b (.onPath b world.store.graph t) item.input =
        .ok (taken world b t item)) ∧
          objects out = stream.map fun t => rowOf items (taken world b t) := by
  rw [inputs_eq] at compiled
  have rows := byEach_delivers quiet named (List.length_map _)
    (fun item inside compiled performs =>
      columnOps_computes (columnOps_of_inputOps compiled) performs) compiled performed
  exact rows.after fun _ _ _ stand => rows_of_isRecord stand

def groupRow (items : List ReturnItem) (group : Value) : Except ExecutionFault Value :=
  (fun cells => .record ((items.map ReturnItem.column).zip cells)) <$>
    (items.map fun item => itemResult item (columnOf item.column group)).mapM fun result => result

theorem groupRow_eq {group row : Value} (made : groupRow items group = .ok row) :
    row = summaryRow items (Application.parts group) := by
  obtain ⟨cells, found, rfl⟩ := map_eq_ok.mp made
  have found := mapM_eq_ok.mp found
  rw [List.forall₂_map_left_iff] at found
  rw [summaryRow, eq_map_of_forall₂ found fun item v same => (result_of_itemResult same).symm]
  rfl

theorem results_turn (distinct : (items.map ReturnItem.column).Nodup)
    (named : items.map ReturnItem.column ≠ [])
    (keyed : ∀ item ∈ items, item.expression.isAggregate = false → keys ≠ []) :
    Turns (fun values => ∀ v ∈ values, IsGroupOf (items.map ReturnItem.column) keys v)
      (.project (items.map ReturnItem.column) ::
        items.map fun item => .nested .by_ [.of (resultOps item)])
      fun values => values.mapM (groupRow items) :=
  .project named (List.length_map _) fun item listed =>
    resultOps_brought distinct (List.mem_map_of_mem listed) (keyed item listed)

/-- What comes out for rows: the row of each group, and no row twice if they must be distinct. -/
theorem summaries_turn {r : ReturnClause} (distinct : (r.items.map ReturnItem.column).Nodup)
    (named : r.items.map ReturnItem.column ≠ []) :
    Turns (AreRows (r.items.map ReturnItem.column))
      (grouping (r.keys.map ReturnItem.column) ++ (.project (r.items.map ReturnItem.column) ::
        r.items.map fun item => .nested .by_ [.of (resultOps item)]) ++ distinctOps r.distinct)
      fun rows => do
        let summaries ← ((groupsOf (r.keys.map ReturnItem.column) rows).map .list).mapM
          (groupRow r.items)
        return if r.distinct then summaries.eraseDups else summaries := by
  refine ((grouping_turns distinct r.keys_listed).append
    (results_turn distinct named fun _ => r.keys_ne_nil) ?_).append
      (distinctOps_turn r.distinct) fun _ _ _ _ => trivial
  rintro rows _ are made
  cases made
  intro v member
  obtain ⟨members, group, rfl⟩ := List.mem_map.mp member
  exact ⟨members, rfl, fun row listed => are row ((groupsOf_sublist group).subset listed),
    fun some_ => groupsOf_ne_nil some_ group⟩

theorem summary_delivered (quiet : world.sideEffects = []) {r : ReturnClause}
    (distinct : (r.items.map ReturnItem.column).Nodup) (named : r.items.map ReturnItem.column ≠ [])
    {bys : Ops} (gathered : inputs b r.items = .ok bys) (served : performAll bys l = .ok l') :
    Delivers world (Known b []) (.project (r.items.map ReturnItem.column) :: bys ++
        (grouping (r.keys.map ReturnItem.column) ++ (.project (r.items.map ReturnItem.column) ::
          r.items.map fun item => .nested .by_ [.of (resultOps item)]) ++ distinctOps r.distinct))
      fun stream out => (∀ t ∈ stream, ∀ item ∈ r.items,
        columnValue b (.onPath b world.store.graph t) item.input = .ok (taken world b t item)) ∧
          objects out = r.summary (taken world b) stream := by
  have rows := inputs_deliver quiet named gathered served
  have summaries : Delivers world _ _ _ := (summaries_turn (r := r) distinct named).delivers
  refine (rows.append summaries ?_).after ?_
  · rintro stream middle _ ⟨_, stands⟩
    rw [stands]
    exact areRows_rowOf _ _
  · rintro stream out _ ⟨middle, ⟨all, stands⟩, made⟩
    refine ⟨all, ?_⟩
    obtain ⟨found, made, same⟩ := bind_eq_ok.mp made
    have rows : found = r.summary (taken world b) stream := by
      rw [eq_map_of_forall₂ (mapM_eq_ok.mp made) fun _ _ => groupRow_eq, stands,
        ReturnClause.groupsOf_rows distinct, List.map_map, List.map_map]
      exact List.map_congr_left fun members _ => ReturnClause.summaryRow_rows distinct members
    -- Rows of different groups differ, so that none is dropped for another.
    rw [← Except.ok.inj same, rows, eraseDups_of_nodup (ReturnClause.summary_nodup distinct)]
    exact ite_self _

/-- The rows of a clause with aggregates are its summary, in another order if they are sorted. -/
theorem aggregatedRows_deliver (quiet : world.sideEffects = []) {r : ReturnClause}
    (distinct : (r.items.map ReturnItem.column).Nodup)
    (compiled : aggregatedRows b r (r.items.map ReturnItem.column) = .ok operations)
    (performed : performAll operations l = .ok l') :
    Delivers world (Known b []) operations fun stream out =>
      (∀ t ∈ stream, ∀ item ∈ r.items,
        columnValue b (.onPath b world.store.graph t) item.input = .ok (taken world b t item)) ∧
          (objects out).Perm (r.summary (taken world b) stream) ∧
            (r.order = [] → objects out = r.summary (taken world b) stream) := by
  obtain ⟨bys, order, gathered, sorted, named, ⟨_, _, served⟩, rfl⟩ :=
    aggregatedRows_parts compiled performed
  rw [List.append_assoc (.project _ :: bys ++ grouping _), List.append_assoc (.project _ :: bys),
    ← List.append_assoc (grouping _)]
  refine ((summary_delivered quiet distinct named gathered served).append
    (sortRows_deliver distinct sorted) ?_).after ?_
  · rintro stream middle _ ⟨_, stands⟩
    exact AreRows.isRow (stands ▸ areRows_rowOf _ _)
  · rintro stream out _ ⟨middle, ⟨all, stands⟩, perm, same⟩
    exact ⟨all, stands ▸ perm.map _, fun unsorted => same unsorted ▸ stands⟩

end Cypher

end PropertyGraph
