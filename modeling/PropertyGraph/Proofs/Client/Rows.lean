import PropertyGraph.Client.Basic
import PropertyGraph.Proofs.Cypher.AggregatedRows
import PropertyGraph.Proofs.Cypher.Delivery
import PropertyGraph.Proofs.Cypher.QuerySoundness
import PropertyGraph.Proofs.Cypher.Reading

/-!
Rows of queries: each has the columns of the RETURN clause. A successful run has two parts, what
reaches the clause and what the clause makes of it: without aggregates one row for each traverser
that reaches the clause, with aggregates one for each group of them.
-/

namespace PropertyGraph

open Cypher Exec Plan Script

/-- What reaches the RETURN clause of a query: the variables, the traversers, and the world they
are in. -/
def Query.Reached (q : Query) (engine : Engine) (store : Store) (b : Bindings) (stream : Stream)
    (world : World) : Prop :=
  ∃ operations scope l, (reachOps q).run .empty = .ok (operations, scope) ∧
    performAll operations Live.onGraph = .ok l ∧ scope.bindings = b ∧
      (l.plan.run engine []).run ⟨store, []⟩ = (.ok stream, world)

namespace Cypher

/-- A run that succeeds reaches the RETURN clause, which delivers what comes out. -/
theorem built_reached {q : Query} {l : Live} (fits : ∀ m ∈ q.matches_, m.Fits)
    (built : q.buildOn Live.onGraph = .ok l) {engine : Engine} {store : Store} {out : Stream}
    {last : World} (ran : (l.plan.run engine []).run ⟨store, []⟩ = (.ok out, last)) :
    ∃ b stream world returned, q.Reached engine store b stream world ∧ world.sideEffects = [] ∧
      Known b [] stream ∧ returnedOps b q.return_ = .ok returned ∧
      (∃ before after : Live, performAll returned before = .ok after) ∧
      ∀ {Post : Stream → Stream → Prop}, Delivers world (Known b []) returned Post →
        Post stream out := by
  obtain ⟨operations, returned, scope, reached, compiled, returns, first, second⟩ :=
    built_parts built
  obtain ⟨ready, started⟩ := reachOps_ready fits compiled first
  obtain ⟨result, after, _, plain, within⟩ := ready.runs.plan engine [] rfl store
  have parts (stages : List Stage) (builds : Builds returned stages) :
      (runStages engine reached.plan.stages [] >>= runStages engine stages).run ⟨store, []⟩ =
        (.ok out, last) := by
    obtain ⟨program, done⟩ := builds reached ready.settled
    cases Except.ok.inj (second.symm.trans done)
    rw [← runStages_append]
    exact ran
  have plain : (runStages engine reached.plan.stages []).run ⟨store, []⟩ = (result, ⟨after, []⟩) :=
    plain
  obtain ⟨stages, builds, _⟩ := (returnedOps_passes returns second)
  cases result with
  | error fault =>
      -- A fault before the clause would be that of the whole run.
      have failed := parts stages builds
      rw [run_bind, plain] at failed
      cases failed
  | ok stream =>
      refine ⟨_, stream, ⟨after, []⟩, returned,
        ⟨operations, scope, reached, compiled, first, rfl, ?_⟩, rfl, within, returns,
        ⟨reached, l, second⟩, ?_⟩
      · rw [Plan.settled_eq ready.settled]
        exact plain
      · rintro Post ⟨stages, builds, obtains⟩
        have finished := parts stages builds
        rw [run_bind, plain] at finished
        exact (obtains engine stream within out last finished).2

end Cypher

theorem forall₂_through {α β γ : Type} {R : α → β → Prop} {S : β → γ → Prop} {T : α → γ → Prop}
    {xs : List α} {ys : List β} {zs : List γ} (first : List.Forall₂ R xs ys)
    (second : List.Forall₂ S ys zs) (implies : ∀ x y z, R x y → S y z → T x z) :
    List.Forall₂ T xs zs := by
  induction first generalizing zs with
  | nil =>
      cases second
      exact .nil
  | cons here _ ih =>
      cases second with
      | cons there others => exact .cons (implies _ _ _ here there) (ih others)

/-- The traverser stands at a row with these columns, and this is the row made ready. -/
def Normalize.IsReady (names : List String) (t : Traverser) (row : Row) : Prop :=
  ∃ entries : List (String × Value), t.object = .record entries ∧ entries.map (·.1) = names ∧
    row = readyRow entries

theorem Normalize.rows_eq {names : List String} (distinct : names.Nodup) {stream : Stream}
    (all : All (IsRow names) stream) {rows : List Row}
    (made : Normalize.rows (objects stream) = .ok rows) :
    List.Forall₂ (IsReady names) stream rows := by
  obtain ⟨found, same, related⟩ := Normalize.rows_ok distinct all
  cases Except.ok.inj (made.symm.trans same)
  exact related

theorem Normalize.keys_of_rows {names : List String} {stream : Stream} {rows : List Row}
    (ready : List.Forall₂ (IsReady names) stream rows) :
    ∀ row ∈ rows, Dictionary.keys row = names := by
  induction ready with
  | nil => exact nofun
  | cons first _ ih =>
      obtain ⟨entries, _, named, rfl⟩ := first
      exact List.forall_mem_cons.mpr ⟨(readyRow_keys entries).trans named, ih⟩

namespace ReturnClause

/-- Every match has a row of its own. -/
def isPlain (r : ReturnClause) : Bool :=
  !r.distinct && r.skip.isNone && r.limit.isNone &&
    r.items.all fun item => !item.expression.hasAggregate

theorem isPlain_iff {r : ReturnClause} : r.isPlain = true ↔ r.distinct = false ∧ r.skip = none ∧
    r.limit = none ∧ ∀ item ∈ r.items, item.expression.hasAggregate = false := by
  simp [isPlain, and_assoc]

/-- A row tells the values of all items for one traverser, in order and made ready. -/
def Tells (r : ReturnClause) (b : Bindings) (g : Graph) (t : Traverser) (row : Row) : Prop :=
  List.Forall₂ (fun item (cell : String × Value) => cell.1 = item.column ∧
    ∃ v, columnValue b (.onPath b g t) item.expression = .ok v ∧ cell.2 = Normalize.value v)
    r.items row

variable {b : Bindings} {r : ReturnClause}

theorem returnOps_plain (plain : r.isPlain = true) {operations : Ops}
    (compiled : returnOps b r = .ok operations) :
    plainRows b r (r.items.map ReturnItem.column) = .ok operations := by
  obtain ⟨_, skip, limit, free⟩ := isPlain_iff.mp plain
  have unlimited : windowOps r = [] := by simp [windowOps, skip, limit]
  obtain ⟨_, rows, rfl, ⟨⟨item, member, aggregated⟩, _⟩ | ⟨_, made⟩⟩ := returnOps_cases compiled
  · rw [free item member] at aggregated
    cases aggregated
  · rwa [unlimited, List.append_nil]

theorem tells_record {world : World} {t u : Traverser} {row : Row}
    (distinct : (r.items.map ReturnItem.column).Nodup)
    (stands : IsRecord (r.items.map ReturnItem.column)
      (itemValues world b (fun item env => columnValue b env item.expression) r.items t) u)
    (ready : Normalize.IsReady (r.items.map ReturnItem.column) u row) :
    r.Tells b world.store.graph t row := by
  obtain ⟨found, place⟩ := IsRecord.rowOf stands
  obtain ⟨entries, place', named, rfl⟩ := ready
  obtain rfl := record_inj (named ▸ distinct) ((rowOf_columns _ _).symm ▸ distinct)
    (place'.symm.trans place)
  rw [Tells, Normalize.readyRow, List.map_map, List.forall₂_map_right_iff, List.forall₂_same]
  exact fun item member => ⟨rfl, _, found item member, rfl⟩

end ReturnClause

theorem Client.run_rows {client after : Client} {l : Live} (bound : l.bound = true)
    {rows : List Row} (ran : client.run l = (.rows rows, after)) : ∃ out last,
      (l.plan.run client.engine []).run ⟨client.store, []⟩ = (.ok out, last) ∧
        Normalize.rows (objects out) = .ok rows := by
  unfold Client.run Live.execute Plan.execute at ran
  rw [if_pos bound] at ran
  generalize executed : (l.plan.run client.engine []).run ⟨client.store, []⟩ = run at ran
  obtain ⟨result, last⟩ := run
  cases result with
  | error fault => cases ran
  | ok out =>
      refine ⟨out, last, rfl, ?_⟩
      simp only [Except.bind] at ran
      split at ran
      · next found made =>
          cases ran
          exact made
      · cases ran

theorem Client.run_returned {q : Query} {l : Live} (fits : ∀ m ∈ q.matches_, m.Fits)
    (built : q.buildOn Live.onGraph = .ok l) {client after : Client} {rows : List Row}
    (ran : client.run l = (.rows rows, after)) : ∃ out last,
      (l.plan.run client.engine []).run ⟨client.store, []⟩ = (.ok out, last) ∧
        Returned q.return_ out ∧ Normalize.rows (objects out) = .ok rows := by
  obtain ⟨bound, carries⟩ := built_carries fits built
  obtain ⟨out, last, executed, made⟩ := Client.run_rows bound ran
  obtain ⟨result, store, _, ended, returned⟩ := carries client.engine [] rfl client.store
  cases (Prod.mk.inj (executed.symm.trans ended)).1
  exact ⟨out, last, executed, returned, made⟩

/-- What a query that succeeds ends in is what its RETURN clause delivers for what reaches it. -/
theorem ReturnClause.run_delivered {text : String} {parameters : Properties} {s : Statement}
    {l : Live} (parsed : Statement.parse text parameters = .ok s)
    (built : s.query.buildOn Live.onGraph = .ok l) {client after : Client} {rows : List Row}
    (ran : client.run l = (.rows rows, after)) {r : ReturnClause}
    (clause : s.query.return_ = some r) :
    ∃ b stream world operations out,
      s.query.Reached client.engine client.store b stream world ∧ world.sideEffects = [] ∧
        returnOps b r = .ok operations ∧
        (∃ before after : Live, performAll operations before = .ok after) ∧
        Returned (some r) out ∧ Normalize.rows (objects out) = .ok rows ∧
        ∀ {Post : Stream → Stream → Prop}, Delivers world (Known b []) operations Post →
          Post stream out := by
  have fits := Statement.parse_fits parsed
  obtain ⟨out, last, executed, ends, made⟩ := Client.run_returned fits built ran
  obtain ⟨b, stream, world, operations, reached, quiet, _, returns, performed, delivers⟩ :=
    built_reached fits built executed
  rw [clause] at ends returns
  exact ⟨b, stream, world, operations, out, reached, quiet, returns, performed, ends, made,
    delivers⟩

/-- A plain clause has one row for each traverser that reaches it, in their order unless it sorts
them, with the value of each item for that traverser. -/
theorem ReturnClause.plain_rows_tell {text : String} {parameters : Properties}
    {s : Statement} {l : Live} (parsed : Statement.parse text parameters = .ok s)
    (built : s.query.buildOn Live.onGraph = .ok l) {client after : Client} {rows : List Row}
    (ran : client.run l = (.rows rows, after)) {r : ReturnClause}
    (clause : s.query.return_ = some r) (plain : r.isPlain = true) :
    ∃ b stream world arranged, s.query.Reached client.engine client.store b stream world ∧
      arranged.Perm stream ∧ (r.order = [] → arranged = stream) ∧
      List.Forall₂ (r.Tells b world.store.graph) arranged rows := by
  obtain ⟨b, stream, world, operations, out, reached, quiet, returns, ⟨_, _, performed⟩,
    ⟨distinct, all⟩, made, delivers⟩ := ReturnClause.run_delivered parsed built ran clause
  have compiled := ReturnClause.returnOps_plain plain returns
  have repeated := (ReturnClause.isPlain_iff.mp plain).1
  obtain ⟨arranged, perm, same, stand⟩ :=
    delivers (plainRows_deliver quiet repeated (List.length_map _) compiled performed)
  refine ⟨b, stream, world, arranged, reached, perm, same, ?_⟩
  exact forall₂_through stand (Normalize.rows_eq distinct all made)
    fun t u row => ReturnClause.tells_record distinct

/-- Without aggregates each row has the values of the items for a traverser of its own, whether rows
must be distinct or are cut off. -/
theorem ReturnClause.rows_tell {text : String} {parameters : Properties}
    {s : Statement} {l : Live} (parsed : Statement.parse text parameters = .ok s)
    (built : s.query.buildOn Live.onGraph = .ok l) {client after : Client} {rows : List Row}
    (ran : client.run l = (.rows rows, after)) {r : ReturnClause}
    (clause : s.query.return_ = some r)
    (free : ∀ item ∈ r.items, item.expression.hasAggregate = false) :
    ∃ b stream world arranged, s.query.Reached client.engine client.store b stream world ∧
      arranged.Subperm stream ∧ List.Forall₂ (r.Tells b world.store.graph) arranged rows := by
  obtain ⟨b, stream, world, operations, out, reached, quiet, returns, ⟨_, _, performed⟩,
    ⟨distinct, all⟩, made, delivers⟩ := ReturnClause.run_delivered parsed built ran clause
  obtain ⟨arranged, among, stand⟩ := delivers (returnOps_deliver quiet free returns performed)
  refine ⟨b, stream, world, arranged, reached, among, ?_⟩
  exact forall₂_through stand (Normalize.rows_eq distinct all made)
    fun t u row => ReturnClause.tells_record distinct

/-- A query that succeeds has rows with the columns of its RETURN clause, and none without one. A
plain clause has one row for each traverser that reaches it, in their order unless it sorts them,
with the value of each item for that traverser. -/
theorem return_yields_one_complete_row_per_match (text : String) (parameters : Properties)
    {s : Statement} {l : Live} (parsed : Statement.parse text parameters = .ok s)
    (built : s.query.buildOn Live.onGraph = .ok l) {client after : Client} {rows : List Row}
    (ran : client.run l = (.rows rows, after)) :
    match s.query.return_ with
    | none => rows = []
    | some r =>
        (∀ row ∈ rows, Dictionary.keys row = r.items.map ReturnItem.column) ∧
          (r.isPlain = true → ∃ b stream world arranged,
            s.query.Reached client.engine client.store b stream world ∧
              arranged.Perm stream ∧ (r.order = [] → arranged = stream) ∧
              List.Forall₂ (r.Tells b world.store.graph) arranged rows) := by
  obtain ⟨out, last, executed, ends, made⟩ :=
    Client.run_returned (Statement.parse_fits parsed) built ran
  cases clause : s.query.return_ with
  | none =>
      rw [clause] at ends
      cases (ends : out = [])
      exact (Except.ok.inj made).symm
  | some r =>
      rw [clause] at ends
      obtain ⟨distinct, all⟩ := ends
      exact ⟨Normalize.keys_of_rows (Normalize.rows_eq distinct all made),
        ReturnClause.plain_rows_tell parsed built ran clause⟩

/-- Whether a query has so many rows, with a RETURN clause of this sort. -/
def Client.answers (client : Client) (text : String) (sort : ReturnClause → Bool) (count : Nat) :
    Bool :=
  match Statement.parse text [] with
  | .error _ => false
  | .ok s =>
      match s.query.return_, s.query.buildOn Live.onGraph with
      | some r, .ok l =>
          sort r && (match (client.run l).1 with
            | .rows rows => rows.length == count
            | _ => false)
      | _, _ => false

theorem Client.run_of_answers {client : Client} {text : String} {sort : ReturnClause → Bool}
    {count : Nat} (answers : client.answers text sort count = true) :
    ∃ (s : Statement) (l : Live) (r : ReturnClause) (rows : List Row),
      Statement.parse text [] = .ok s ∧ s.query.buildOn Live.onGraph = .ok l ∧
        s.query.return_ = some r ∧ sort r = true ∧
        client.run l = (.rows rows, (client.run l).2) ∧ rows.length = count := by
  unfold Client.answers at answers
  split at answers
  · cases answers
  · next s parsed =>
      split at answers
      · next r l clause built =>
          obtain ⟨sorted, answers⟩ := Bool.and_eq_true_iff.mp answers
          split at answers
          · next rows ran =>
              exact ⟨s, l, r, rows, parsed, built, clause, sorted, Prod.ext ran rfl,
                eq_of_beq answers⟩
          · cases answers
      · cases answers

/-- Nodes, relationships and values are all returned, sorted by what is not. -/
def describedEnds : String := "MATCH (a)-[e:k]-(b) RETURN a AS here, e, id(a) ORDER BY id(b)"

theorem described_ends_have_complete_rows : ∃ (s : Statement) (l : Live) (r : ReturnClause)
    (client after : Client) (rows : List Row), Statement.parse describedEnds [] = .ok s ∧
      s.query.buildOn Live.onGraph = .ok l ∧ s.query.return_ = some r ∧ r.isPlain = true ∧
      client.run l = (.rows rows, after) ∧ rows.length = 2 ∧ ∃ b stream world arranged,
        s.query.Reached client.engine client.store b stream world ∧ arranged.Perm stream ∧
          List.Forall₂ (r.Tells b world.store.graph) arranged rows := by
  let client : Client := ⟨⟨.oneEdge, .zero⟩, .standard 10, .groovy⟩
  have answers : client.answers describedEnds ReturnClause.isPlain 2 = true := by decide +kernel
  obtain ⟨s, l, r, rows, parsed, built, clause, plain, ran, two⟩ := Client.run_of_answers answers
  have complete := return_yields_one_complete_row_per_match describedEnds [] parsed built ran
  rw [clause] at complete
  obtain ⟨b, stream, world, arranged, reached, perm, _, tells⟩ := complete.2 plain
  exact ⟨s, l, r, client, _, rows, parsed, built, clause, plain, ran, two, b, stream, world,
    arranged, reached, perm, tells⟩

theorem Normalize.rows_rowOf {α : Type} {items : List ReturnItem}
    (distinct : (items.map ReturnItem.column).Nodup) (values : α → ReturnItem → Value)
    (inputs : List α) : rows (inputs.map fun x => rowOf items (values x)) =
      .ok (inputs.map fun x => items.map fun item => (item.column, value (values x item))) := by
  induction inputs with
  | nil => rfl
  | cons x rest ih =>
      change (do
        let first ← row (rowOf items (values x))
        return first :: (← rows (rest.map fun x => rowOf items (values x)))) = _
      rw [rowOf, row_record ((rowOf_columns items (values x)).symm ▸ distinct), ih, readyRow,
        List.map_map]
      rfl

namespace ReturnClause

/-- All groups have a row of their own, in the order in which they begin. -/
def isSummary (r : ReturnClause) : Bool :=
  r.order.isEmpty && r.skip.isNone && r.limit.isNone &&
    r.items.any fun item => item.expression.hasAggregate

theorem isSummary_iff {r : ReturnClause} : r.isSummary = true ↔ r.order = [] ∧ r.skip = none ∧
    r.limit = none ∧ ∃ item ∈ r.items, item.expression.hasAggregate = true := by
  simp [isSummary, and_assoc]

variable {b : Bindings} {r : ReturnClause}

theorem returnOps_summary (summary : r.isSummary = true) {operations : Ops}
    (compiled : returnOps b r = .ok operations) : (r.items.map ReturnItem.column).Nodup ∧
      aggregatedRows b r (r.items.map ReturnItem.column) = .ok operations := by
  obtain ⟨_, skip, limit, some_⟩ := isSummary_iff.mp summary
  have unlimited : windowOps r = [] := by simp [windowOps, skip, limit]
  obtain ⟨distinct, rows, rfl, ⟨_, made⟩ | ⟨free, _⟩⟩ := returnOps_cases compiled
  · exact ⟨distinct, by rwa [unlimited, List.append_nil]⟩
  · obtain ⟨item, member, aggregated⟩ := some_
    rw [free item member] at aggregated
    cases aggregated

end ReturnClause

/-- A query that succeeds has, for a clause with aggregates that neither sorts nor cuts off, one row
for each group of the traversers that reach the clause, with what each item becomes for that group.
Integer sums are exact, and the least and the greatest value are found where the order leads in no
circle. -/
theorem aggregates_have_one_row_per_group (text : String) (parameters : Properties)
    {s : Statement} {l : Live} (parsed : Statement.parse text parameters = .ok s)
    (built : s.query.buildOn Live.onGraph = .ok l) {r : ReturnClause}
    (clause : s.query.return_ = some r) (summary : r.isSummary = true) {client after : Client}
    {rows : List Row} (ran : client.run l = (.rows rows, after)) :
    ∃ b stream world cell, s.query.Reached client.engine client.store b stream world ∧
      (∀ t ∈ stream, ∀ item ∈ r.items,
        columnValue b (.onPath b world.store.graph t) item.input = .ok (cell t item)) ∧
          rows = ((r.groups cell stream).map fun members => r.items.map fun item =>
            (item.column, Normalize.value (ReturnClause.outcome cell members item))) ∧
          ∀ members ∈ r.groups cell stream, ∀ item ∈ r.items, ∀ name once arguments,
            item.expression = .call name once arguments → Expression.isAggregateName name = true →
              Reduce.Describes name (Reduce.given once (members.map fun t => cell t item))
                (ReturnClause.outcome cell members item) := by
  obtain ⟨b, stream, world, operations, out, reached, quiet, returns, ⟨_, _, performed⟩, _, made,
    delivers⟩ := ReturnClause.run_delivered parsed built ran clause
  obtain ⟨distinct, compiled⟩ := ReturnClause.returnOps_summary summary returns
  have unsorted := (ReturnClause.isSummary_iff.mp summary).1
  obtain ⟨cells, _, stands⟩ :=
    delivers (aggregatedRows_deliver quiet distinct compiled performed)
  refine ⟨b, stream, world, taken world b, reached, cells, ?_,
    fun _ _ _ _ _ _ _ shape aggregate => ReturnItem.result_describes shape aggregate _⟩
  rw [stands unsorted, ReturnClause.summary, Normalize.rows_rowOf distinct] at made
  exact (Except.ok.inj made).symm

/-- Vertices that each have one of the values under one key. -/
def Client.storing (values : List Value) : Client :=
  ⟨⟨values.foldl (fun g v => (g.addVertex "p" [("x", v)]).2) .empty, .zero⟩, .standard 10, .groovy⟩

/-- Vertices are counted and listed by a key, next to what is known of another. -/
def countedByKey : String :=
  "MATCH (n) RETURN n.x, count(*), collect(DISTINCT id(n)) AS ids, sum(n.y), min(n.y) AS least"

theorem equal_keys_have_one_row : ∃ (s : Statement) (l : Live) (r : ReturnClause)
    (client after : Client) (rows : List Row), Statement.parse countedByKey [] = .ok s ∧
      s.query.buildOn Live.onGraph = .ok l ∧ s.query.return_ = some r ∧ r.isSummary = true ∧
      client.run l = (.rows rows, after) ∧ rows.length = 2 ∧ ∃ b stream world cell,
        s.query.Reached client.engine client.store b stream world ∧
          rows = (r.groups cell stream).map fun members => r.items.map fun item =>
            (item.column, Normalize.value (ReturnClause.outcome cell members item)) := by
  let client : Client := .storing [.int 1, .int 2, .int 1]
  have answers : client.answers countedByKey ReturnClause.isSummary 2 = true := by decide +kernel
  obtain ⟨s, l, r, rows, parsed, built, clause, summary, ran, two⟩ := Client.run_of_answers answers
  obtain ⟨b, stream, world, cell, reached, _, summarized, _⟩ :=
    aggregates_have_one_row_per_group countedByKey [] parsed built clause summary ran
  exact ⟨s, l, r, client, _, rows, parsed, built, clause, summary, ran, two, b, stream, world,
    cell, reached, summarized⟩

def Client.rows? (client : Client) (text : String) : Option (List Row) :=
  match (client.submit text []).1 with
  | .rows found => some found
  | _ => none

/-- Two integers with a number between them that double precision takes for either. -/
def closeNumbers : List Value :=
  [.int 9007199254740993, .float (.ofInt 9007199254740992), .int 9007199254740992]

/-- A null that is stored is counted, and of numbers that are too close the last is taken for the
greatest. -/
theorem stored_null_counts_and_close_numbers_tie :
    (Client.storing [.null]).rows? "MATCH (n) RETURN n.x" = some [[("n.x", .null)]] ∧
      (Client.storing [.null]).rows? "MATCH (n) RETURN count(n.x)" =
        some [[("count(n.x)", .int 1)]] ∧
      (Client.storing closeNumbers).rows? "MATCH (n) RETURN n.x" =
        some (closeNumbers.map fun v => [("n.x", v)]) ∧
      (Client.storing closeNumbers).rows? "MATCH (n) RETURN max(n.x)" =
        some [[("max(n.x)", .int 9007199254740992)]] ∧
      Value.order (.int 9007199254740992) (.int 9007199254740993) = .lt := by
  decide +kernel

end PropertyGraph
