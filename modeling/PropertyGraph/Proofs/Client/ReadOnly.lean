import PropertyGraph.Proofs.Builder.Compiled
import PropertyGraph.Proofs.Client.Portable
import PropertyGraph.Proofs.Cypher.QueryMaterial

/-!
What only reads changes nothing: neither a program without steps that write, nor a query without
clauses that write. Scripts of queries only look at the graph, except for the steps of CREATE, SET
and DELETE: those of expressions, conditions, patterns and returned rows hold no step that changes
it.
-/

namespace PropertyGraph

/-- Steps that only look at the graph, on any values. -/
def Material.looking : Material := ⟨False, fun _ => True, fun _ => trivial, fun _ => trivial⟩

theorem Material.looking_reads {kind : StepKind} (allowed : Material.looking.Allows kind) :
    kind.Reads := allowed.resolve_right id

theorem Material.looking_takes (v : Value) : Material.looking.Takes v := fun _ _ => trivial

mutual

theorem Expression.literals_look : (e : Expression) → e.Literals Material.looking.Takes
  | .literal v => .literal (Material.looking_takes v)
  | .reference name => .reference name
  | .property owner key => .property owner key
  | .list items => .list (Expression.items_look items)
  | .map entries => .map (Expression.entries_look entries)
  | .binary left op right =>
      .binary op (Expression.literals_look left) (Expression.literals_look right)
  | .not e => .not (Expression.literals_look e)
  | .negate e => .negate (Expression.literals_look e)
  | .isNull e => .isNull (Expression.literals_look e)
  | .isNotNull e => .isNotNull (Expression.literals_look e)
  | .call name distinct arguments =>
      .call name distinct (Expression.items_look arguments)
  | .countAll => .countAll
termination_by structural e => e

theorem Expression.items_look :
    (items : List Expression) → ∀ e ∈ items, e.Literals Material.looking.Takes
  | [] => List.forall_mem_nil _
  | e :: rest => List.forall_mem_cons.mpr
      ⟨Expression.literals_look e, Expression.items_look rest⟩
termination_by structural items => items

theorem Expression.entries_look : (entries : List (String × Expression)) →
    ∀ entry ∈ entries, entry.2.Literals Material.looking.Takes
  | [] => List.forall_mem_nil _
  | entry :: rest => List.forall_mem_cons.mpr
      ⟨Expression.entry_look entry, Expression.entries_look rest⟩
termination_by structural entries => entries

theorem Expression.entry_look :
    (entry : String × Expression) → entry.2.Literals Material.looking.Takes
  | (_, e) => Expression.literals_look e
termination_by structural entry => entry

end

theorem Query.literals_look (q : Query) : q.Literals Material.looking.Takes :=
  .refl (fun e => ⟨rfl, e.literals_look⟩) q

namespace Script

variable {operations : List (Op Script)}

theorem reads_of_made (made : OpsMade .looking operations) :
    ∀ kind ∈ opsKinds operations, kind.Reads :=
  fun kind member => Material.looking_reads (opsKinds_made operations made kind member)

theorem OpsMade.uses (made : OpsMade .looking operations) {rooted : Bool} {l : Live}
    (performed : performAll operations (Live.starting rooted) = .ok l) :
    l.plan.Uses StepKind.Reads := by
  have alike := performAll_faithful operations (Faithful.starting rooted)
  rw [performed] at alike
  generalize recording : performAll operations (Recorder.starting rooted) = recorded at alike
  cases alike with
  | @ok recorder _ same =>
      have blank : (Recorder.starting rooted).program = [] := by cases rooted <;> rfl
      have kinds : recorder.program.kinds = _ := performAll_kinds operations recording
      rw [blank, same.simulates.program] at kinds
      refine Plan.ofProgram?_uses ?_ same.compiled
      rw [kinds]
      exact reads_of_made made

theorem OpsMade.builds (made : OpsMade .looking operations) {stages : List Stage}
    (builds : Builds operations stages) : Plan.UsesStages StepKind.Reads stages := by
  obtain ⟨program, done⟩ := builds.fresh
  have done : performAll operations (Live.starting false) = _ := done
  exact (made.uses done).1

end Script

/-- Queries without CREATE, SET and DELETE. -/
def Query.ReadsOnly (q : Query) : Prop := q.create = [] ∧ q.set = [] ∧ q.delete = none

theorem Query.program_reads {q : Query} (reads : q.ReadsOnly) {p : Program}
    (recorded : q.program = .ok p) : p.ReadsOnly := fun kind member =>
  Material.looking_reads ((program_made q.literals_look (.inr reads) p recorded).kinds kind member)

end PropertyGraph

/-! ## Queries that only read -/

namespace PropertyGraph

open Cypher Script

/-- A query that only reads builds a traversal that leaves every store as it was. -/
theorem Query.build_reading {q : Query} (reads : q.ReadsOnly) {l : Live}
    (built : q.buildOn Live.onGraph = .ok l) (engine : Engine) (store : Store) :
    (l.execute engine store).2 = store := by
  obtain ⟨p, program, compiled⟩ := Query.program_of_built built
  exact Live.execute_reading (Query.program_reads reads program) compiled engine store

namespace Client

theorem run_reading {l : Live} (kept : ∀ engine store, (l.execute engine store).2 = store)
    (client : Client) : (client.run l).2.store.graph = client.store.graph := by
  have same := kept client.engine client.store
  unfold run
  generalize l.execute client.engine client.store = seen at same
  obtain ⟨result, after⟩ := seen
  cases same
  dsimp only
  split <;> rfl

/-- Counters apart, a statement whose query only reads changes nothing, also where it is rejected. -/
theorem submitStatement_reading {s : Statement} (reads : s.query.ReadsOnly) (client : Client) :
    (client.submitStatement s).2.store.graph = client.store.graph := by
  unfold submitStatement
  dsimp only
  split
  · split <;> rfl
  · split
    · next l built => exact run_reading (Query.build_reading reads built) _
    · rfl

end Client

/-- Read-only programs never change anything. A program without steps that write, at any depth,
leaves the whole store as it was, however its run ends; the program of a query without clauses that
write is such a program; and a client that runs either still holds the same graph, with its
elements, their order, the indexes and the next ids. -/
theorem reading_leaves_the_graph :
    (∀ (p : Program), p.ReadsOnly →
      (∀ (bound : Bool) (l : Live), Live.ofProgram? bound p = .ok l → ∀ engine store,
        (l.execute engine store).2 = store) ∧
      ∀ client : Client, (client.submitProgram p).2.store.graph = client.store.graph) ∧
    ∀ (q : Query), q.ReadsOnly →
      (∀ p, q.program = .ok p → p.ReadsOnly) ∧
      (∀ l, q.buildOn Live.onGraph = .ok l → ∀ engine store, (l.execute engine store).2 = store) ∧
      ∀ (client : Client) (text : String) (parameters : Properties) (s : Statement),
        Statement.parse text parameters = .ok s → s.query = q →
          (client.submit text parameters).2.store.graph = client.store.graph := by
  refine ⟨fun p reads => ⟨fun bound l arranged => Live.execute_reading reads arranged, ?_⟩,
    fun q reads => ⟨fun p => Query.program_reads reads, fun l => Query.build_reading reads, ?_⟩⟩
  · intro client
    unfold Client.submitProgram
    split
    · next l arranged => exact Client.run_reading (Live.execute_reading reads arranged) client
    · rfl
  · rintro client text parameters s parsed rfl
    rw [Client.submit, parsed]
    exact Client.submitStatement_reading reads client

/-- Two hops, of which a part of the program only counts the relationships on the way. -/
def countingWalk : Program :=
  [.mk .v [], .mk .sideEffect [.program [.mk .outE [], .mk .count []]],
    .mk .repeat_ [.program [.mk .outE [.label "knows"], .mk .inV [], .mk .simplePath []]],
    .mk .times [.literal (.int 2)], .mk .values [.label "name"]]

def friendsOfFriends : String :=
  "MATCH (a)-[e:knows*1..2]->(b) WHERE a.name <> b.name RETURN b.name, count(*) ORDER BY b.name"

theorem counting_walk_leaves_the_graph :
    (countingWalk.ReadsOnly ∧ ∀ client : Client,
      (client.submitProgram countingWalk).2.store.graph = client.store.graph) ∧
    ∃ s p l, Statement.parse friendsOfFriends [] = .ok s ∧ s.query.ReadsOnly ∧
      s.query.program = .ok p ∧ p.ReadsOnly ∧ s.query.buildOn Live.onGraph = .ok l ∧
      (∀ engine store, (l.execute engine store).2 = store) ∧
      ∀ client : Client,
        (client.submit friendsOfFriends []).2.store.graph = client.store.graph := by
  refine ⟨⟨by decide, (reading_leaves_the_graph.1 countingWalk (by decide)).2⟩, ?_⟩
  have accepted : ((Statement.parse friendsOfFriends []).toOption.any fun s =>
      s.query.create.isEmpty && s.query.set.isEmpty && s.query.delete.isNone
        && s.query.program.isOk) = true := by decide +kernel
  cases parsed : Statement.parse friendsOfFriends [] with
  | error fault => simp [parsed, Except.toOption] at accepted
  | ok s =>
      cases recorded : s.query.program with
      | error fault =>
          simp [parsed, recorded, Except.toOption, Except.isOk, Except.toBool] at accepted
      | ok p =>
          have reads : s.query.ReadsOnly := by
            simpa [parsed, recorded, Except.toOption, Except.isOk, Except.toBool,
              Query.ReadsOnly, and_assoc] using accepted
          obtain ⟨program, live, client⟩ := reading_leaves_the_graph.2 s.query reads
          obtain ⟨l, built, _⟩ := Query.build_live recorded
          exact ⟨s, p, l, rfl, reads, recorded, program p recorded, built, live l built,
            fun c => client c _ _ s parsed rfl⟩

end PropertyGraph
