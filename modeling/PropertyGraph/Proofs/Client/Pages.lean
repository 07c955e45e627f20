import PropertyGraph.Proofs.Client.ReadOnly
import PropertyGraph.Proofs.Client.Rows
import PropertyGraph.Proofs.Client.Structure
import PropertyGraph.Proofs.Cypher.RoundTrip

/-!
Pages of what a query returns. SKIP and LIMIT are carried out after everything else that a RETURN
clause asks for, so a query with them has a slice of the rows that it has without, and fails where
that one fails. What only reads leaves the graph to the next page, so pages that follow one another
have all rows in turn.
-/

namespace PropertyGraph

open Cypher Exec Plan Script

/-- Neither SKIP nor LIMIT. -/
def ReturnClause.IsWhole (r : ReturnClause) : Prop := r.skip = none ∧ r.limit = none

def ReturnClause.page (r : ReturnClause) (skip limit : Int64) : ReturnClause :=
  { r with skip := some skip, limit := some limit }

def Query.page (q : Query) (skip limit : Int64) : Query :=
  { q with return_ := q.return_.map (·.page skip limit) }

/-- The items from a position on, at most so many of them. -/
def pageOf {α : Type} (skip limit : Int64) (items : List α) : List α :=
  (items.drop skip.toInt.toNat).take limit.toInt.toNat

def Outcome.page (skip limit : Int64) : Outcome → Outcome
  | .rows found => .rows (pageOf skip limit found)
  | other => other

/-! ### The text -/

section

variable {q : Query} {r : ReturnClause} {print : Expression → List Token} {skip limit : Int64}

theorem Query.Writable.page (writable : q.Writable print) (from_ : 0 ≤ skip.toInt)
    (allowed : 0 ≤ limit.toInt) : (q.page skip limit).Writable print := by
  refine { writable with some_ := ?_, return_ := ?_ }
  · have filled := writable.some_
    cases clause : q.return_ <;> simp_all [Query.page, Cypher.Query.isEmpty]
  · intro _ member
    obtain ⟨r, clause, rfl⟩ := Option.map_eq_some_iff.mp member
    exact { writable.return_ r clause with
      skip := fun _ same => by cases same; exact from_
      limit := fun _ same => by cases same; exact allowed }

def pageTokens (skip limit : Int64) : List Token :=
  ["SKIP".toList, digitChars skip.toInt.toNat, "LIMIT".toList, digitChars limit.toInt.toNat]

theorem ReturnClause.tokens_page (terse : Bool) (print : Expression → List Token)
    (whole : r.IsWhole) :
    (r.page skip limit).tokens terse print = r.tokens terse print ++ pageTokens skip limit := by
  obtain ⟨distinct, items, order, _, _⟩ := r
  obtain ⟨rfl, rfl⟩ := whole
  simp only [ReturnClause.tokens, ReturnClause.page, clauseTokens, pageTokens, List.append_assoc,
    List.append_nil, List.cons_append, List.nil_append]
  rfl

theorem Query.tokens_page (terse : Bool) (print : Expression → List Token)
    (clause : q.return_ = some r) (whole : r.IsWhole) :
    (q.page skip limit).tokens terse print = q.tokens terse print ++ pageTokens skip limit := by
  simp only [Query.tokens, Query.page, clause, Option.map_some, clauseTokens,
    ReturnClause.tokens_page terse print whole, List.append_assoc, List.cons_append]

theorem Query.written_page (terse : Bool) (print : Expression → List Token)
    (clause : q.return_ = some r) (whole : r.IsWhole) :
    (q.page skip limit).written terse print = q.written terse print ++
      (" SKIP " ++ natText skip.toInt.toNat ++ " LIMIT " ++ natText limit.toInt.toNat) := by
  have some_ : spaced (q.tokens terse print) ≠ [] := by
    simp only [Query.tokens, clause, clauseTokens, spaced_append, spaced_cons]
    simp
  have skips : " SKIP ".toList = ' ' :: ("SKIP".toList ++ [' ']) := by decide
  have limits : " LIMIT ".toList = ' ' :: ("LIMIT".toList ++ [' ']) := by decide
  apply String.toList_injective
  rw [Query.written, textOf_eq, Query.tokens_page terse print clause whole, spaced_append,
    List.tail_append_of_ne_nil some_, String.toList_append, Query.written, textOf_eq]
  simp only [pageTokens, spaced_cons, spaced_nil, natText, String.toList_append, skips, limits,
    String.toList_ofList, List.append_nil, List.append_assoc, List.cons_append, List.nil_append]

theorem written_page_parses (terse : Bool) (writable : q.Writable print)
    (clause : q.return_ = some r) (whole : r.IsWhole) (from_ : 0 ≤ skip.toInt)
    (allowed : 0 ≤ limit.toInt) (parameters : Properties) :
    Statement.parse (q.written terse print ++
        (" SKIP " ++ natText skip.toInt.toNat ++ " LIMIT " ++ natText limit.toInt.toNat))
      parameters = .ok ⟨false, q.page skip limit⟩ := by
  rw [← Query.written_page terse print clause whole]
  exact (written_query_parses terse (writable.page from_ allowed) parameters).1

end

/-! ### The script -/

section

variable {q : Query} {r : ReturnClause} (skip limit : Int64)

theorem Cypher.returnOps_page (whole : r.IsWhole) (b : Bindings) :
    returnOps b (r.page skip limit) =
      (· ++ windowOps (r.page skip limit)) <$> returnOps b r := by
  have unlimited : windowOps r = [] := by simp [windowOps, whole.1, whole.2]
  have grouped (names : List String) :
      aggregatedRows b (r.page skip limit) names = aggregatedRows b r names := rfl
  have plain (names : List String) :
      plainRows b (r.page skip limit) names = plainRows b r names := rfl
  have items : (r.page skip limit).items = r.items := rfl
  unfold returnOps
  simp only [unlimited, grouped, plain, items, List.append_nil]
  split
  · rfl
  · split <;> simp

theorem Cypher.queryOps_page (clause : q.return_ = some r) (whole : r.IsWhole) (scope : Scope) :
    (queryOps (q.page skip limit)).run scope =
      (fun made => (made.1 ++ windowOps (r.page skip limit), made.2)) <$>
        (queryOps q).run scope := by
  have reach : reachOps (q.page skip limit) = reachOps q := rfl
  have returns (b : Bindings) : returnedOps b (q.page skip limit).return_ =
      (· ++ windowOps (r.page skip limit)) <$> returnedOps b q.return_ := by
    simp only [Query.page, clause, Option.map_some, returnedOps, Option.getD_some]
    exact returnOps_page skip limit whole b
  simp only [queryOps_run, reach, returns]
  simp

theorem Query.buildOn_eq {σ : Type} [Backend σ] (q : Query) (b : σ) :
    q.buildOn b = ((queryOps q).run .empty).mapError Error.compilation >>= fun made =>
      (performAll made.1 b).mapError Error.build := by
  unfold buildOn Query.script
  cases (queryOps q).run .empty with
  | error fault => rfl
  | ok made =>
      have whole : (Script.of made.1).perform b = performAll made.1 b := rfl
      dsimp only [bind, Except.bind, pure, Except.pure, Except.mapError]
      rw [whole]
      cases performAll made.1 b <;> rfl

/-- The query is built as it is without SKIP and LIMIT, which come last. -/
theorem Query.page_buildOn {σ : Type} [Backend σ] (clause : q.return_ = some r)
    (whole : r.IsWhole) (b : σ) : (q.page skip limit).buildOn b =
      q.buildOn b >>= fun built =>
        (performAll (windowOps (r.page skip limit)) built).mapError Error.build := by
  rw [buildOn_eq, buildOn_eq, queryOps_page skip limit clause whole]
  cases (queryOps q).run .empty with
  | error fault => rfl
  | ok made =>
      change (performAll (made.1 ++ windowOps (r.page skip limit)) b).mapError Error.build =
        (performAll made.1 b).mapError Error.build >>= _
      rw [performAll_append]
      cases performAll made.1 b <;> rfl

end

/-! ### The run -/

section

variable (skip limit : Int64)

def pageStages : List Stage :=
  [.apply (.mk .skip [.literal (.int skip)]) [] [],
    .apply (.mk .limit [.literal (.int limit)]) [] []]

theorem Cypher.windowOps_build (r : ReturnClause) :
    Builds (windowOps (r.page skip limit)) (pageStages skip limit) :=
  (Builds.step .skip ⟨rfl, by decide⟩ rfl [.literal (.int skip)] rfl).append
    (Builds.step .limit ⟨rfl, by decide⟩ rfl [.literal (.int limit)] rfl)

theorem pageStages_run {limit : Int64} (allowed : 0 ≤ limit.toInt) (engine : Engine)
    (stream : Stream) :
    runStages engine (pageStages skip limit) stream = pure (pageOf skip limit stream) := by
  have slice (stream : Stream) : Application.slice 0 limit stream =
      stream.take limit.toInt.toNat := by
    simp [Application.slice, Application.bound, Int.not_lt.mpr allowed]
  have skips : runStage engine (.apply (.mk .skip [.literal (.int skip)]) [] []) stream =
      pure (stream.drop skip.toInt.toNat) := rfl
  have limits (stream : Stream) :
      runStage engine (.apply (.mk .limit [.literal (.int limit)]) [] []) stream =
        pure (Application.slice 0 limit stream) := rfl
  simp [pageStages, runStages, skips, limits, slice, pageOf]

theorem Cypher.built_settled {q : Query} {l : Live} (fits : ∀ m ∈ q.matches_, m.Fits)
    (built : q.buildOn Live.onGraph = .ok l) : l.plan.pending = [] := by
  obtain ⟨before, returned, scope, reached, compiled, returns, first, second⟩ := built_parts built
  obtain ⟨ready, _⟩ := reachOps_ready fits compiled first
  obtain ⟨stages, builds, _⟩ := returnedOps_passes returns second
  obtain ⟨program, done⟩ := builds reached ready.settled
  cases Except.ok.inj (second.symm.trans done)
  rfl

/-- The plan takes the page of what the other one comes to. -/
structure Live.Pages (l paged : Live) : Prop where
  bound : paged.bound = l.bound
  settled : l.plan.pending = []
  plan : paged.plan = .mk (l.plan.stages ++ pageStages skip limit) []

theorem Query.page_built {q : Query} {r : ReturnClause} {l : Live}
    (fits : ∀ m ∈ q.matches_, m.Fits) (clause : q.return_ = some r) (whole : r.IsWhole)
    (built : q.buildOn Live.onGraph = .ok l) :
    ∃ paged, (q.page skip limit).buildOn Live.onGraph = .ok paged ∧
      l.Pages skip limit paged := by
  have settled := built_settled fits built
  obtain ⟨program, done⟩ := windowOps_build skip limit r l settled
  refine ⟨⟨l.bound, program, .mk (l.plan.stages ++ pageStages skip limit) []⟩, ?_,
    rfl, settled, rfl⟩
  rw [page_buildOn skip limit clause whole, built]
  change (performAll (windowOps (r.page skip limit)) l).mapError Error.build = _
  rw [done]
  rfl

variable {skip limit}

theorem Live.Pages.execute {l paged : Live} (pages : l.Pages skip limit paged)
    (allowed : 0 ≤ limit.toInt) (engine : Engine) (store : Store) :
    paged.execute engine store =
      (pageOf skip limit <$> (l.execute engine store).1, (l.execute engine store).2) := by
  have run : paged.plan.run engine [] =
      l.plan.run engine [] >>= fun stream => pure (pageOf skip limit stream) := by
    rw [pages.plan, settled_eq pages.settled]
    change runStages engine (l.plan.stages ++ pageStages skip limit) [] =
      runStages engine l.plan.stages [] >>= _
    rw [runStages_append]
    exact bind_congr fun stream => pageStages_run skip allowed engine stream
  unfold Live.execute Plan.execute
  rw [pages.bound, run, run_bind]
  split
  · generalize (l.plan.run engine []).run ⟨store, []⟩ = ended
    obtain ⟨result, world⟩ := ended
    cases result with
    | error fault => rfl
    | ok stream =>
        have taken : objects (pageOf skip limit stream) = pageOf skip limit (objects stream) := by
          simp [pageOf, objects, List.map_take, List.map_drop]
        exact Prod.ext (congrArg Except.ok taken) rfl
  · rfl

end

/-! ### The rows -/

theorem Normalize.rows_eq_mapM (values : List Value) : rows values = values.mapM row := by
  induction values with
  | nil => rfl
  | cons v rest ih =>
      rw [List.mapM_cons, ← ih]
      rfl

theorem Normalize.rows_page (skip limit : Int64) {values : List Value} {found : List Row}
    (made : rows values = .ok found) :
    rows (pageOf skip limit values) = .ok (pageOf skip limit found) := by
  rw [rows_eq_mapM, mapM_eq_ok] at made ⊢
  exact List.forall₂_take _ (List.forall₂_drop _ made)

namespace Client

variable {skip limit : Int64}

/-- Runs that end in rows have the page of them; runs that fail fail alike. -/
theorem run_page {q : Query} {l paged : Live} (fits : ∀ m ∈ q.matches_, m.Fits)
    (built : q.buildOn Live.onGraph = .ok l) (pages : l.Pages skip limit paged)
    (allowed : 0 ≤ limit.toInt) (client : Client) :
    (client.run paged).1 = (client.run l).1.page skip limit := by
  obtain ⟨result, after, _, _, within, executed⟩ :=
    built_executes fits built client.engine client.store
  simp only [run, pages.execute allowed, executed]
  cases result with
  | error fault => rfl
  | ok stream =>
      obtain ⟨found, made⟩ := Returned.rows within
      simp only [map_ok, Except.bind, made, Normalize.rows_page skip limit made]
      rfl

/-- Counters apart, what a statement comes to depends on the graph and the loop limit. -/
theorem submitStatement_same {left right : Client} (engines : left.engine = right.engine)
    (same : left.store.graph = right.store.graph) (q : Query) :
    (left.submitStatement ⟨false, q⟩).1 = (right.submitStatement ⟨false, q⟩).1 := by
  simp only [submitStatement, Bool.false_eq_true, if_false]
  split
  · next l built => exact (run_same (left.count Metrics.countCompilation)
      (right.count Metrics.countCompilation) l engines same).1
  · rfl

theorem submitStatement_page {q : Query} {r : ReturnClause} (fits : ∀ m ∈ q.matches_, m.Fits)
    (clause : q.return_ = some r) (whole : r.IsWhole) (skip : Int64) (allowed : 0 ≤ limit.toInt)
    (client : Client) : (client.submitStatement ⟨false, q.page skip limit⟩).1 =
      (client.submitStatement ⟨false, q⟩).1.page skip limit := by
  simp only [submitStatement, Bool.false_eq_true, if_false]
  cases built : q.buildOn Live.onGraph with
  | error error =>
      rw [Query.page_buildOn skip limit clause whole, built]
      rfl
  | ok l =>
      obtain ⟨paged, builtPage, pages⟩ := Query.page_built skip limit fits clause whole built
      rw [builtPage]
      exact run_page fits built pages allowed _

theorem submitStatement_engine (client : Client) (s : Statement) :
    (client.submitStatement s).2.engine = client.engine := by
  have ran (client : Client) (l : Live) : (client.run l).2.engine = client.engine := by
    unfold run
    dsimp only
    split <;> rfl
  unfold submitStatement
  dsimp only
  split
  · split <;> rfl
  · split
    · next l _ => exact ran (client.count Metrics.countCompilation) l
    · rfl

def submitPages (client : Client) (q : Query) : List (Int64 × Int64) → List Outcome
  | [] => []
  | (skip, limit) :: rest =>
      let (outcome, after) := client.submitStatement ⟨false, q.page skip limit⟩
      outcome :: after.submitPages q rest

end Client

/-- Pages that follow one another from a position on, each given by its SKIP and its LIMIT. -/
def Consecutive : Nat → List (Int64 × Int64) → Prop
  | _, [] => True
  | start, (skip, limit) :: rest =>
      skip.toInt = start ∧ 0 ≤ limit.toInt ∧ Consecutive (start + limit.toInt.toNat) rest

/-- How many rows pages have room for. -/
def roomOf (pages : List (Int64 × Int64)) : Nat := (pages.map fun page => page.2.toInt.toNat).sum

/-- Each page has its own part of the rows, and the parts together are all of them from the first
position on, as far as there is room. -/
theorem Client.submitPages_rows {q : Query} {r : ReturnClause} (fits : ∀ m ∈ q.matches_, m.Fits)
    (clause : q.return_ = some r) (whole : r.IsWhole) (reads : q.ReadsOnly) {client : Client}
    {rows : List Row} (ran : (client.submitStatement ⟨false, q⟩).1 = .rows rows) {start : Nat}
    {pages : List (Int64 × Int64)} (consecutive : Consecutive start pages) :
    ∃ parts : List (List Row), client.submitPages q pages = parts.map .rows ∧
      parts.flatten = (rows.drop start).take (roomOf pages) := by
  induction pages generalizing client start with
  | nil => exact ⟨[], rfl, by simp [roomOf]⟩
  | cons page rest ih =>
      obtain ⟨skip, limit⟩ := page
      obtain ⟨begins, allowed, others⟩ := consecutive
      have here := submitStatement_page fits clause whole skip allowed client
      -- A page only reads, so the query still has the same rows afterwards.
      let after := (client.submitStatement ⟨false, q.page skip limit⟩).2
      have kept : after.store.graph = client.store.graph := submitStatement_reading reads client
      have still : (after.submitStatement ⟨false, q⟩).1 = .rows rows :=
        (submitStatement_same (client.submitStatement_engine _) kept q).trans ran
      obtain ⟨parts, more, together⟩ := ih still others
      refine ⟨pageOf skip limit rows :: parts, ?_, ?_⟩
      · rw [ran] at here
        exact congrArg₂ List.cons here more
      · have first : skip.toInt.toNat = start := by rw [begins, Int.toNat_natCast]
        simp only [List.flatten_cons, together, pageOf, first, roomOf, List.map_cons, List.sum_cons,
          List.take_add, List.drop_drop]

/-- SKIP and LIMIT slice what a query returns. On every graph a query with them has rows if and only
if it has rows without, and then those from the position that SKIP gives on, at most as many as
LIMIT allows; counters apart, all depends on the graph and the loop limit only. So for a query that
only reads, pages that are submitted one after the other, each beginning where the last one ended,
have all rows in turn, as far as there is room. What is written behind the text of the query for it
is SKIP and LIMIT. -/
theorem pages_slice_what_a_query_returns (text : String) (parameters : Properties) {q : Query}
    {r : ReturnClause} (parsed : Statement.parse text parameters = .ok ⟨false, q⟩)
    (clause : q.return_ = some r) (whole : r.IsWhole) (client : Client) :
    (∀ other : Client, other.engine = client.engine →
      other.store.graph = client.store.graph →
      ∀ skip limit : Int64, 0 ≤ skip.toInt → 0 ≤ limit.toInt →
        ((∃ rows, (client.submit text parameters).1 = .rows rows) ↔
          ∃ rows, (other.submitStatement ⟨false, q.page skip limit⟩).1 = .rows rows) ∧
        ∀ rows, (client.submit text parameters).1 = .rows rows →
          (other.submitStatement ⟨false, q.page skip limit⟩).1 =
            .rows ((rows.drop skip.toInt.toNat).take limit.toInt.toNat)) ∧
      (q.ReadsOnly → ∀ rows, (client.submit text parameters).1 = .rows rows →
        ∀ pages : List (Int64 × Int64), Consecutive 0 pages →
          ∃ parts : List (List Row), client.submitPages q pages = parts.map .rows ∧
            parts.flatten = rows.take (roomOf pages) ∧
            (rows.length ≤ roomOf pages → parts.flatten = rows)) ∧
      ∀ (terse : Bool) (print : Expression → List Token), q.Writable print →
        ∀ skip limit : Int64, 0 ≤ skip.toInt → 0 ≤ limit.toInt →
          Statement.parse (q.written terse print ++ (" SKIP " ++ natText skip.toInt.toNat ++
            " LIMIT " ++ natText limit.toInt.toNat)) parameters = .ok ⟨false, q.page skip limit⟩ := by
  have fits := Statement.parse_fits parsed
  have submitted : client.submit text parameters = client.submitStatement ⟨false, q⟩ := by
    rw [Client.submit, parsed]
  rw [submitted]
  refine ⟨fun other engines same skip limit _ allowed => ?_,
    fun reads rows ran pages consecutive => ?_, fun terse print writable skip limit from_ allowed =>
      written_page_parses terse writable clause whole from_ allowed parameters⟩
  · have page := Client.submitStatement_page fits clause whole skip allowed other
    rw [Client.submitStatement_same engines same q] at page
    rw [page]
    constructor
    · cases (client.submitStatement ⟨false, q⟩).1 <;> simp [Outcome.page]
    · rintro rows ran
      rw [ran]
      rfl
  · obtain ⟨parts, pages_, together⟩ :=
      client.submitPages_rows fits clause whole reads ran consecutive
    rw [List.drop_zero] at together
    exact ⟨parts, pages_, together, fun room => together.trans (List.take_of_length_le room)⟩

/-- Values are counted, and their counts sorted. -/
def countsByValue : String := "MATCH (n) RETURN n.x AS x, count(*) AS times ORDER BY x DESC"

theorem two_pages_have_all_counts : ∃ (q : Query) (r : ReturnClause) (client : Client)
    (rows : List Row), Statement.parse countsByValue [] = .ok ⟨false, q⟩ ∧ q.return_ = some r ∧
      r.IsWhole ∧ q.ReadsOnly ∧ (client.submit countsByValue []).1 = .rows rows ∧
      rows.length = 3 ∧
      (client.submitStatement ⟨false, q.page 1 5⟩).1 = .rows (rows.drop 1) ∧
      ∃ parts : List (List Row),
        client.submitPages q [(0, 2), (2, 2)] = parts.map .rows ∧ parts.flatten = rows := by
  let client : Client := .storing [.int 1, .int 2, .int 1, .int 3]
  let rows : List Row := [[("x", .int 3), ("times", .int 1)], [("x", .int 2), ("times", .int 1)],
    [("x", .int 1), ("times", .int 2)]]
  have accepted : ((Statement.parse countsByValue []).toOption.any fun s =>
      !s.explain && s.query.create.isEmpty && s.query.set.isEmpty && s.query.delete.isNone &&
        s.query.return_.any fun r => r.skip.isNone && r.limit.isNone) = true := by decide +kernel
  have found : client.rows? countsByValue = some rows := by decide +kernel
  have ran : (client.submit countsByValue []).1 = .rows rows := by
    unfold Client.rows? at found
    split at found
    · next same => exact same.trans (congrArg Outcome.rows (Option.some.inj found))
    · cases found
  cases parsed : Statement.parse countsByValue [] with
  | error fault => simp [parsed, Except.toOption] at accepted
  | ok s =>
      obtain ⟨explain, q⟩ := s
      simp only [parsed, Except.toOption, Option.any_some, Bool.and_eq_true, Bool.not_eq_true',
        List.isEmpty_iff, Option.isNone_iff_eq_none, Option.any_eq_true] at accepted
      obtain ⟨⟨⟨⟨rfl, create⟩, set⟩, delete⟩, r, clause, whole⟩ := accepted
      obtain ⟨pages, all, _⟩ := pages_slice_what_a_query_returns countsByValue [] parsed clause whole
        client
      have consecutive : Consecutive 0 [(0, 2), (2, 2)] :=
        ⟨by decide, by decide, by decide, by decide, trivial⟩
      obtain ⟨parts, submitted, _, together⟩ :=
        all ⟨create, set, delete⟩ rows ran [(0, 2), (2, 2)] consecutive
      exact ⟨q, r, client, rows, rfl, clause, whole, ⟨create, set, delete⟩, ran, rfl,
        (pages client rfl rfl 1 5 (by decide) (by decide)).2 rows ran, parts, submitted,
        together (by decide)⟩

end PropertyGraph
