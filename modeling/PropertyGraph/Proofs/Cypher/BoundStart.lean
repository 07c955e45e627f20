import PropertyGraph.Proofs.Builder.Equivalence
import PropertyGraph.Proofs.Cypher.Scoping

/-!
Patterns that start at a node that is bound already. The script goes back to the node by its label,
and so a traverser stands there a second time: its path has the node twice. Only a loop sees this,
for it walks on as long as the whole path is simple.
-/

namespace PropertyGraph

namespace Query

variable (a b : String) (r : RelationshipPattern)

/-- `MATCH (a)-r-(b) RETURN id(a), id(b)` -/
def inOneClause : Query :=
  ⟨[⟨[⟨.named a, [(r, .named b)]⟩], none⟩], [], [], none, some (.ids [a, b])⟩

/-- `MATCH (a) MATCH (a)-r-(b) RETURN id(a), id(b)` -/
def fromBoundStart : Query :=
  ⟨[⟨[⟨.named a, []⟩], none⟩, ⟨[⟨.named a, [(r, .named b)]⟩], none⟩], [], [], none,
    some (.ids [a, b])⟩

end Query

namespace Cypher

open Exec Script Scripting

variable {a b : String} {r : RelationshipPattern}

/-- The scope behind `(a)`. -/
def boundScope (a : String) : Scope := ⟨[(a, .node)], true, 0⟩

theorem start_run (a : String) : (matchStart (.named a)).run .empty =
    .ok ([.vertices, .labelled .as_ [a]], boundScope a) := rfl

theorem start_again_run (a : String) : (matchStart (.named a)).run (boundScope a) =
    .ok ([.select [a]], boundScope a) := by
  have known : boundKind? (boundScope a).bindings (some a) = some .node := if_pos rfl
  rw [matchStart_run, NodePattern.named, known]
  rfl

/-- The script behind the start of the pattern, which both queries have. -/
def restOps (a b : String) (r : RelationshipPattern) : Scripting Ops := do
  let edge ← matchRelationship r
  let vertex ← matchEnd (.named b)
  return edge ++ (vertex ++ (← laterOps (.inOneClause a b r)))

theorem inOneClause_ops (a b : String) (r : RelationshipPattern) :
    queryOps (.inOneClause a b r) = do
      let first ← matchStart (.named a)
      return first ++ (← restOps a b r) := by
  rw [queryOps_eq, Query.inOneClause]
  simp only [restOps, matchClauses, matchClause, matchPaths, matchPath, matchChain, bind_assoc,
    pure_bind, List.append_assoc, List.append_nil]
  rfl

theorem fromBoundStart_ops (a b : String) (r : RelationshipPattern) :
    queryOps (.fromBoundStart a b r) = do
      let first ← matchStart (.named a)
      let again ← matchStart (.named a)
      return first ++ (again ++ (← restOps a b r)) := by
  have later : laterOps (.fromBoundStart a b r) = laterOps (.inOneClause a b r) := rfl
  rw [queryOps_eq, later, Query.fromBoundStart]
  simp only [restOps, matchClauses, matchClause, matchPaths, matchPath, matchChain, bind_assoc,
    pure_bind, List.append_assoc, List.append_nil]

variable {view : View} {operations : Ops} {s s' : Scope}

theorem Yields.holds {α ε : Type} {P : α → Prop} {left right : Except ε α}
    (yields : Yields P left right) {a : α} (found : left = .ok a) : P a := by
  subst found
  cases yields with
  | ok same => exact same.2

theorem knows_all {view : View} (reads : ∀ name, view.reads name) (b : Bindings)
    (names : List String) : ∀ name ∈ names, Knows view b b name :=
  fun name _ => ⟨reads name, rfl⟩

theorem unbound_before {kind : NameKind} {given : Option String} {name : String}
    (unbound : Dictionary.get? name (s.declared kind given).bindings = none) :
    Dictionary.get? name s.bindings = none := by
  cases given with
  | none => exact unbound
  | some other =>
      rw [Scope.declared, Dictionary.get?_put] at unbound
      split at unbound
      · cases unbound
      · exact unbound

/-- A relationship that is no loop gives no label but its name, which is new. -/
theorem matchRelationship_follows (reads : ∀ name, view.reads name)
    (single : ∀ range ∈ r.length, range.max = some 0)
    (labels : ∀ name, Dictionary.get? name s.bindings = none → view.labels name)
    (compiled : (matchRelationship r).run s = .ok (operations, s')) :
    Follow view operations ∧ ∀ name, Dictionary.get? name s'.bindings = none →
      Dictionary.get? name s.bindings = none := by
  obtain ⟨new, ⟨_, rfl, filters, given, rfl⟩ | ⟨range, length, rfl, ⟨_, rfl⟩ | ⟨loops, _⟩⟩⟩ :=
    matchRelationship_cases compiled
  · have straight := (filterOps_yields (knows_all reads _ _)).holds given
    have fresh : ∀ name ∈ r.name, view.labels name := by
      intro name named
      rw [Option.mem_def.mp named] at new
      exact labels name new
    exact ⟨(hop_straight fresh straight).follow, fun _ => unbound_before⟩
  · exact ⟨.nil, fun _ => unbound_before⟩
  · exact absurd (single range length) loops

/-- A node of which nothing is said gives no label but its name, if that is new. -/
theorem matchEnd_follows (reads : ∀ name, view.reads name) {name : String}
    (labels : ∀ name, Dictionary.get? name s.bindings = none → view.labels name)
    (compiled : (matchEnd (.named name)).run s = .ok (operations, s')) :
    Follow view operations := by
  obtain ⟨_, found, ⟨new, rfl, rfl⟩ | ⟨other, _, _, rfl, rfl⟩⟩ := matchEnd_cases compiled <;>
    cases found
  · have fresh : ∀ given ∈ some name, view.labels given := by
      rintro given same
      cases same
      exact labels name new
    exact (labelOps_straight fresh).follow
  · have looks : view.AdmitsOp (sameAs other) := ⟨trivial, fun _ name _ => reads name, trivial⟩
    exact .cons looks rfl trivial

/-- Without anything to create, only values are looked up, and no label is given. -/
theorem laterOps_follow (reads : ∀ name, view.reads name) {q : Query} (creates : q.create = [])
    (compiled : (laterOps q).run s = .ok (operations, s')) : Follow view operations := by
  unfold laterOps at compiled
  rw [creates] at compiled
  obtain ⟨created, middle, done, compiled⟩ := run_bind_ok.mp compiled
  cases done
  obtain ⟨started, after, done, compiled⟩ := run_bind_ok.mp compiled
  have first : Follow view started := by
    rw [startOps_run] at done
    split at done
    · cases done
      exact .nil
    · cases done
      exact inject_follows
  obtain ⟨rest, _, done, compiled⟩ := run_bind_ok.mp compiled
  rw [closing_run] at done
  obtain ⟨others, given, same⟩ := map_eq_ok.mp done
  cases same
  cases compiled
  have yields : Yields (Follow view) (closingOps s'.bindings q) (closingOps s'.bindings q) :=
    closingOps_yields (knows_all reads _ _) (knows_all reads _ _) (knows_all reads _ _)
  exact first.append (yields.holds given)

theorem restOps_follow (single : ∀ range ∈ r.length, range.max = some 0)
    (compiled : (restOps a b r).run (boundScope a) = .ok (operations, s)) :
    Follow (View.withoutLabel a) operations := by
  have reads (name : String) : (View.withoutLabel a).reads name := trivial
  have labels (name : String) (unbound : Dictionary.get? name (boundScope a).bindings = none) :
      (View.withoutLabel a).labels name := by
    rintro rfl
    have known : Dictionary.get? name (boundScope name).bindings = some .node := if_pos rfl
    rw [known] at unbound
    cases unbound
  obtain ⟨edge, middle, done, compiled⟩ := run_bind_ok.mp compiled
  obtain ⟨first, before⟩ := matchRelationship_follows reads single labels done
  obtain ⟨vertex, reached, done, compiled⟩ := run_bind_ok.mp compiled
  have second := matchEnd_follows reads (fun name unbound => labels name (before name unbound)) done
  obtain ⟨later, after, done, compiled⟩ := run_bind_ok.mp compiled
  have third := laterOps_follow reads rfl done
  cases compiled
  exact first.append (second.append third)

/-- Where the two queries come together the traversers cannot be told apart. -/
theorem starts_agree (a : String) (engine : Engine) (store : Store) :
    Exec.AgreeIn ⟨store, []⟩ (Stream.Alike (View.withoutLabel a))
      (Plan.runStages engine [.vertices, .bare .as_ [.label a]] [])
      (Plan.runStages engine ([.vertices, .bare .as_ [.label a]] ++ [.bare .select [.label a]])
        []) := by
  have back : Expands engine ⟨store, []⟩
      (fun t u => t = u ∧ ∃ v : VertexRef, u = (Traverser.start (.vertex v)).addLabel a)
      [.bare .select [.label a]] (fun u => [u])
      (fun t u => u.Alike (View.withoutLabel a) t) := by
    refine Expands.select fun t u ⟨same, v, start⟩ => ⟨.vertex v, u, ?_, rfl, ?_⟩
    · have stands := Traverser.object_addLabel (.start (.vertex v)) a
      have last := Traverser.last_addLabel (.start (.vertex v)) a
      rw [same, start, World.named?, stands]
      exact last
    · rw [same, start]
      exact Traverser.Alike.stays v a
  have started : Gives ⟨store, []⟩ (Plan.runStages engine [.vertices, .bare .as_ [.label a]] [])
      (.ok ((store.graph.vertices.map fun v => Traverser.start (.vertex v.ref)).map
        fun t => t.addLabel a)) := rfl
  have standing : ∀ t ∈ (store.graph.vertices.map fun v => Traverser.start (.vertex v.ref)).map
      (fun t => t.addLabel a), t = t ∧ ∃ v, t = (Traverser.start (.vertex v)).addLabel a := by
    intro t member
    obtain ⟨u, listed, rfl⟩ := List.mem_map.mp member
    obtain ⟨v, _, rfl⟩ := List.mem_map.mp listed
    exact ⟨rfl, v.ref, rfl⟩
  obtain ⟨out, gives, reached⟩ := back _ _ (List.forall₂_same.mpr standing)
  rw [List.flatMap_singleton'] at reached
  rw [Plan.runStages_append]
  exact .of_gives started (started.bind_ok gives) (reached.flip)

/-- The builder behind `(a)`. -/
def atStart (a : String) : Live :=
  ⟨true, [.mk .v [], .mk .as_ [.label a]], .mk [.vertices, .bare .as_ [.label a]] []⟩

/-- The builder that goes back to the node. -/
def backAtStart (a : String) : Live :=
  ⟨true, [.mk .v [], .mk .as_ [.label a], .mk .select [.label a]],
    .mk ([.vertices, .bare .as_ [.label a]] ++ [.bare .select [.label a]]) []⟩

theorem queries_perform_alike (single : ∀ range ∈ r.length, range.max = some 0) :
    Alike (fun left right => Alike Live.Equivalent (performAll left.1 Live.onGraph)
      (performAll right.1 Live.onGraph)) ((queryOps (.inOneClause a b r)).run .empty)
        ((queryOps (.fromBoundStart a b r)).run .empty) := by
  rw [inOneClause_ops, fromBoundStart_ops, StateT.run_bind, StateT.run_bind, start_run]
  simp only [ok_bind, StateT.run_bind, start_again_run]
  cases compiled : (restOps a b r).run (boundScope a) with
  | error fault => exact .error fault
  | ok rest =>
      obtain ⟨operations, s⟩ := rest
      have follow := restOps_follow single compiled
      have first : performAll [.vertices, .labelled .as_ [a]] Live.onGraph = .ok (atStart a) := rfl
      have again : performAll [.select [a]] (atStart a) = .ok (backAtStart a) := rfl
      have opening : Op.Opening false operations := follow.2
      have waiting : (View.withoutLabel a).AdmitsModulators [] := trivial
      refine .ok ?_
      rw [performAll_append, performAll_append, first, ok_bind, ok_bind, performAll_append, again,
        ok_bind]
      refine (performAll_same_tail (l := atStart a) (m := backAtStart a) (List.cons_ne_nil _ _)
        (List.cons_ne_nil _ _) rfl rfl rfl waiting opening (fun no => by cases no) follow.1).imp ?_
      exact fun _ _ same => same.equivalent (starts_agree a)

end Cypher

/-- A pattern without a loop finds the same from a node that is bound as in one clause. -/
theorem bound_start_finds_the_same (client : Client) (a b : String) {r : RelationshipPattern}
    (single : ∀ range ∈ r.length, range.max = some 0) :
    client.submitStatement ⟨false, .fromBoundStart a b r⟩ =
      client.submitStatement ⟨false, .inOneClause a b r⟩ :=
  (client.submitStatement_eq (Query.buildOn_alike (Cypher.queries_perform_alike single))).symm

/-- A loop walks nowhere from a node that is bound, for the node is on the path twice. -/
theorem bound_start_stops_loops :
    (Client.onOneEdge.submitStatement
        ⟨false, .fromBoundStart "a" "b" (.forward (some ⟨1, some 1⟩))⟩).1 = .rows [] ∧
      (Client.onOneEdge.submitStatement
        ⟨false, .inOneClause "a" "b" (.forward (some ⟨1, some 1⟩))⟩).1 =
          .rows [[("id(a)", .int 1), ("id(b)", .int 2)]] :=
  ⟨rfl, rfl⟩

theorem single_edge_is_found_from_bound_start :
    (∀ range ∈ (RelationshipPattern.forward none).length, range.max = some 0) ∧
      Client.onOneEdge.submitStatement ⟨false, .fromBoundStart "a" "b" (.forward none)⟩ =
        Client.onOneEdge.submitStatement ⟨false, .inOneClause "a" "b" (.forward none)⟩ :=
  ⟨nofun, bound_start_finds_the_same .onOneEdge "a" "b" nofun⟩

end PropertyGraph
