import PropertyGraph.Proofs.Client.ClearColumns
import PropertyGraph.Proofs.Client.Changing
import PropertyGraph.Proofs.Cypher.DistinctRows

/-!
Rows that must be distinct. They are told apart before they are made ready, so they stay apart where
their values do.
-/

namespace PropertyGraph

open Cypher Exec Script

namespace Reduce

theorem foldl_mem {keep : Value → Value → Value}
    (chooses : ∀ kept v, keep kept v = kept ∨ keep kept v = v) {first : Value}
    {rest : List Value} : rest.foldl keep first ∈ first :: rest :=
  (foldl_keeps (P := fun _ => True) (R := fun _ _ => True) (fun _ _ => trivial)
    (fun _ _ _ _ _ _ _ _ => trivial)
    (fun kept v _ _ => (chooses kept v).imp (⟨·, trivial⟩) (⟨·, trivial⟩))
    fun _ _ => trivial).1

theorem least?_mem {values : List Value} {found : Value} (least : least? values = some found) :
    found ∈ values := by
  cases values with
  | nil => cases least
  | cons first rest =>
      cases least
      refine foldl_mem fun kept v => ?_
      split
      · exact .inr rfl
      · exact .inl rfl

theorem greatest?_mem {values : List Value} {found : Value}
    (greatest : greatest? values = some found) : found ∈ values := by
  cases values with
  | nil => cases greatest
  | cons first rest =>
      cases greatest
      refine foldl_mem fun kept v => ?_
      split
      · exact .inl rfl
      · exact .inr rfl

end Reduce

namespace CellKind

def aggregate (name : String) (kind : CellKind) : CellKind :=
  if name == "count" then .value
  else if name == "collect" then .list kind
  else if name == "sum" then .value
  else if name == "min" then kind
  else if name == "max" then kind
  else .value

variable {kind : CellKind} {values : List Value}

theorem holds_unknown (kind : CellKind) : kind.holds Value.unknown = true :=
  holds_iff.mpr (.inl rfl)

theorem holds_getD {found : Option Value} (admitted : ∀ v, found = some v → kind.admits v = true) :
    kind.holds (found.getD Value.unknown) = true := by
  cases found with
  | none => exact holds_unknown kind
  | some v => exact holds_iff.mpr (.inr (admitted v rfl))

theorem aggregate_holds (name : String) (all : ∀ v ∈ values, kind.admits v = true) :
    (aggregate name kind).holds (Reduce.aggregate name values) = true := by
  unfold aggregate Reduce.aggregate
  repeat' split
  · rfl
  · exact holds_iff.mpr (.inr (List.all_eq_true.mpr all))
  · unfold Reduce.sum
    split <;> rfl
  · exact holds_getD fun v least => all v (Reduce.least?_mem least)
  · exact holds_getD fun v greatest => all v (Reduce.greatest?_mem greatest)
  · refine holds_getD fun v mean => ?_
    unfold Reduce.mean? at mean
    split at mean <;> cases mean
    rfl

theorem given_admitted (once : Bool) (all : ∀ v ∈ values, kind.holds v = true) :
    ∀ v ∈ Reduce.given once values, kind.admits v = true := by
  have known (v : Value) (member : v ∈ values.filter (· ≠ Value.unknown)) :
      kind.admits v = true := by
    obtain ⟨listed, known⟩ := List.mem_filter.mp member
    exact (holds_iff.mp (all v listed)).resolve_left (of_decide_eq_true known)
  unfold Reduce.given
  dsimp only
  split
  · exact fun v member => known v (List.mem_eraseDups.mp member)
  · exact known

theorem headD_holds (all : ∀ v ∈ values, kind.holds v = true) :
    kind.holds (values.headD Value.unknown) = true := by
  cases values with
  | nil => exact holds_unknown kind
  | cons v rest => exact all v List.mem_cons_self

end CellKind

namespace ReturnItem

def cellKind (b : Bindings) (item : ReturnItem) : CellKind :=
  match item.expression with
  | .countAll => .value
  | .call name _ _ =>
      if Expression.isAggregateName name then .aggregate name (item.input.cellKind b)
      else item.input.cellKind b
  | _ => item.input.cellKind b

variable {b : Bindings} {item : ReturnItem} {values : List Value}

theorem result_holds (all : ∀ v ∈ values, (item.input.cellKind b).holds v = true) :
    (item.cellKind b).holds (item.result values) = true := by
  cases shape : item.expression with
  | countAll =>
      simp only [cellKind, result, shape]
      rfl
  | call name once arguments =>
      simp only [cellKind, result, shape]
      split
      · exact CellKind.aggregate_holds name (CellKind.given_admitted once all)
      · exact CellKind.headD_holds all
  | _ =>
      simp only [cellKind, result, shape]
      exact CellKind.headD_holds all

end ReturnItem

namespace ReturnClause

variable {r : ReturnClause} {b : Bindings}

/-- What all items take from a traverser is clear. -/
def TakesClear (r : ReturnClause) (b : Bindings) (g : Graph) (t : Traverser) : Prop :=
  ∀ item ∈ r.items, ∀ v, columnValue b (.onPath b g t) item.input = .ok v →
    (item.input.cellKind b).holds v = true

theorem takesClear {g : Graph} {t : Traverser} (stores : g.StoresClear)
    (bound : ∀ name, ∀ v ∈ t.labelled name, v.isClear = true)
    (written : ∀ item ∈ r.items, item.input.isClear = true) : r.TakesClear b g t :=
  fun item listed _ found => columnValue_clear stores bound (written item listed) found

end ReturnClause

/-- What reaches the RETURN clause of a query, if anything does. -/
def Query.reached? (q : Query) (engine : Engine) (store : Store) :
    Option (Bindings × Stream × World) :=
  match (reachOps q).run .empty with
  | .error _ => none
  | .ok (operations, scope) =>
      match performAll operations Live.onGraph with
      | .error _ => none
      | .ok l =>
          match (l.plan.run engine []).run ⟨store, []⟩ with
          | (.ok stream, world) => some (scope.bindings, stream, world)
          | (.error _, _) => none

theorem Query.reached?_of_reached {q : Query} {engine : Engine} {store : Store} {b : Bindings}
    {stream : Stream} {world : World} (reached : q.Reached engine store b stream world) :
    q.reached? engine store = some (b, stream, world) := by
  obtain ⟨operations, scope, l, compiled, performed, rfl, ran⟩ := reached
  simp only [reached?, compiled, performed, ran]

/-- Whether all that the items take when a query runs is clear. -/
def Query.takesClear (q : Query) (client : Client) : Bool :=
  match q.return_, q.reached? client.engine client.store with
  | some r, some (b, stream, world) =>
      stream.all fun t => r.items.all fun item =>
        match columnValue b (.onPath b world.store.graph t) item.input with
        | .ok v => (item.input.cellKind b).holds v
        | .error _ => true
  | _, _ => true

theorem Query.clear_of_takesClear {q : Query} {client : Client} {r : ReturnClause}
    (clause : q.return_ = some r) (clear : q.takesClear client = true) {b : Bindings}
    {stream : Stream} {world : World}
    (reached : q.Reached client.engine client.store b stream world) :
    ∀ t ∈ stream, r.TakesClear b world.store.graph t := by
  intro t member item listed v found
  simp only [takesClear, clause, reached?_of_reached reached, List.all_eq_true] at clear
  have holds := clear t member item listed
  rw [found] at holds
  exact holds

/-- Rows of clear values are as different when they are made ready. -/
theorem Normalize.rows_nodup {items : List ReturnItem} {b : Bindings}
    (distinct : (items.map ReturnItem.column).Nodup) {found : List Value}
    (apart : found.Nodup) (clear : ∀ row ∈ found, ∃ cell : ReturnItem → Value,
      row = rowOf items cell ∧ ∀ item ∈ items, (item.cellKind b).holds (cell item) = true)
    {ready : List Row} (made : rows found = .ok ready) : ready.Nodup := by
  choose! cell shape holds using clear
  have same : found.map (fun row => rowOf items (cell row)) = found :=
    (List.map_congr_left fun row member => (shape row member).symm).trans (List.map_id found)
  have made' := rows_rowOf distinct cell found
  rw [same, made] at made'
  rw [Except.ok.inj made']
  refine List.Nodup.map_on (fun row member other member' equal => ?_) apart
  have cells := List.map_inj_left.mp equal
  have values : ∀ item ∈ items, cell row item = cell other item := fun item listed =>
    CellKind.holds_inj (holds row member item listed) (holds other member' item listed)
      (congrArg Prod.snd (cells item listed))
  rw [shape row member, shape other member']
  exact congrArg Value.record (List.map_congr_left fun item listed =>
    congrArg (Prod.mk item.column) (values item listed))

/-- The rows of a query whose RETURN clause asks for distinct ones are pairwise different, where the
items take clear values from all traversers that reach the clause. -/
theorem distinct_rows_differ (text : String) (parameters : Properties)
    {s : Statement} {l : Live} (parsed : Statement.parse text parameters = .ok s)
    (built : s.query.buildOn Live.onGraph = .ok l) {r : ReturnClause}
    (clause : s.query.return_ = some r) (once : r.distinct = true) {client after : Client}
    {rows : List Row} (ran : client.run l = (.rows rows, after))
    (clear : ∀ b stream world, s.query.Reached client.engine client.store b stream world →
      ∀ t ∈ stream, r.TakesClear b world.store.graph t) : rows.Nodup := by
  obtain ⟨b, stream, world, operations, out, reached, quiet, returns, ⟨_, _, performed⟩, _, made,
    delivers⟩ := ReturnClause.run_delivered parsed built ran clause
  obtain ⟨distinct, distinguish⟩ := returnOps_distinguish quiet once returns performed
  obtain ⟨taken, apart, rows⟩ := delivers distinguish
  refine Normalize.rows_nodup (b := b) distinct apart (fun row member => ?_) made
  obtain ⟨members, among, rfl⟩ := rows row member
  refine ⟨_, rfl, fun item listed => ReturnItem.result_holds ?_⟩
  rw [List.forall_mem_map]
  exact fun t inside => clear b stream world reached t (among inside) item listed _
    (taken t (among inside) item listed)

/-- Pairs of vertices, sorted and cut off. -/
def distinctPairs : String :=
  "MATCH (a), (b) RETURN DISTINCT a, [a.x, b.x, b.y] AS found ORDER BY found DESC LIMIT 5"

theorem listed_pairs_differ : ∃ (s : Statement) (l : Live) (r : ReturnClause)
    (client after : Client) (rows : List Row), Statement.parse distinctPairs [] = .ok s ∧
      s.query.buildOn Live.onGraph = .ok l ∧ s.query.return_ = some r ∧ r.distinct = true ∧
      s.query.takesClear client = true ∧ client.run l = (.rows rows, after) ∧ rows.length = 5 ∧
        rows.Nodup := by
  let client : Client := .storing [.int 1, .list [.int 2], .int 1]
  have answers : client.answers distinctPairs ReturnClause.distinct 5 = true := by decide +kernel
  have clear : (Statement.parse distinctPairs []).toOption.all
    (fun s => s.query.takesClear client) = true := by decide +kernel
  obtain ⟨s, l, r, rows, parsed, built, clause, once, ran, five⟩ := Client.run_of_answers answers
  rw [parsed] at clear
  exact ⟨s, l, r, client, _, rows, parsed, built, clause, once, clear, ran, five,
    distinct_rows_differ distinctPairs [] parsed built clause once ran fun _ _ _ =>
      Query.clear_of_takesClear clause clear⟩

/-- A null that was written inside a list and one that was computed there are the same in rows, and
kept apart before. -/
theorem nulls_inside_lists_repeat_rows :
    let made := ["CREATE (a {k: [null]})", "MATCH (a) CREATE (b {k: [a.missing]})"]
    (Client.afterAll made).store.graph.vertices.map Vertex.properties =
        [[("k", .list [.null])], [("k", .list [Value.unknown])]] ∧
      (Client.afterAll made).rows? "MATCH (n) RETURN DISTINCT n.k" =
        some [[("n.k", .list [.null])], [("n.k", .list [.null])]] := by
  decide +kernel

end PropertyGraph
