import PropertyGraph.Cypher.Compiler
import PropertyGraph.Client.Normalize
import PropertyGraph.Proofs.Cypher.ReturnSoundness

/-!
Whole queries: what reaches the RETURN clause, and what the clause makes of it.
-/

namespace PropertyGraph

theorem Query.buildOn_ok {σ : Type} [Backend σ] {q : Query} {before built : σ}
    (done : q.buildOn before = .ok built) :
    ∃ operations scope, (Cypher.queryOps q).run .empty = .ok (operations, scope) ∧
      Script.performAll operations before = .ok built := by
  unfold buildOn at done
  split at done
  · cases done
  · next script scripted =>
      obtain ⟨⟨operations, scope⟩, compiled, same⟩ := bind_eq_ok.mp scripted
      cases same
      split at done
      · cases done
      · next performed =>
          cases done
          exact ⟨operations, scope, compiled, performed⟩

namespace Cypher

open Exec Plan Script Scripting

/-- Changes of what was found and created. -/
def changeOps (b : Bindings) (q : Query) : Except CompileFault Ops := do
  let set ← setAll b q.set
  return set ++ (← (q.delete.map (deleteOps b)).getD (.ok []))

theorem changeOps_nothing {b : Bindings} {q : Query} (noSet : q.set = [])
    (noDelete : q.delete = none) : changeOps b q = .ok [] := by
  rw [changeOps, noSet, noDelete]
  rfl

/-- Everything before the RETURN clause. -/
def reachOps (q : Query) : Scripting Ops := do
  let found ← matchClauses q.matches_
  let created ← createPaths q.create
  let started ← startOps
  return found ++ created ++ started ++ (← changeOps (← get).bindings q)

/-- The RETURN clause; without one nothing is returned. -/
def returnedOps (b : Bindings) (r : Option ReturnClause) : Except CompileFault Ops :=
  (r.map (returnOps b)).getD (.ok [.append .barrier [], .limit 0])

theorem reachOps_parts {q : Query} {s scope : Scope} {operations : Ops}
    (compiled : (reachOps q).run s = .ok (operations, scope)) :
    ∃ found matched created written started changed,
      (matchClauses q.matches_).run s = .ok (found, matched) ∧
      (createPaths q.create).run matched = .ok (created, written) ∧
      startOps.run written = .ok (started, scope) ∧ changeOps scope.bindings q = .ok changed ∧
      operations = found ++ created ++ started ++ changed := by
  obtain ⟨found, matched, first, compiled⟩ := run_bind_ok.mp compiled
  obtain ⟨created, written, second, compiled⟩ := run_bind_ok.mp compiled
  obtain ⟨started, begun, third, compiled⟩ := run_bind_ok.mp compiled
  have changes : (fun changed => (found ++ created ++ started ++ changed, begun)) <$>
      changeOps begun.bindings q = .ok (operations, scope) := by
    simpa using compiled
  obtain ⟨changed, fourth, same⟩ := map_eq_ok.mp changes
  cases same
  exact ⟨found, matched, created, written, started, changed, first, second, third, fourth, rfl⟩

theorem queryOps_run (q : Query) (s : Scope) : (queryOps q).run s = do
    let (reached, scope) ← (reachOps q).run s
    let returned ← returnedOps scope.bindings q.return_
    return (reached ++ returned, scope) := by
  simp [queryOps, reachOps, changeOps, returnedOps]

theorem built_parts {q : Query} {l : Live} (built : q.buildOn Live.onGraph = .ok l) :
    ∃ before returned scope reached, (reachOps q).run .empty = .ok (before, scope) ∧
      returnedOps scope.bindings q.return_ = .ok returned ∧
      performAll before Live.onGraph = .ok reached ∧ performAll returned reached = .ok l := by
  obtain ⟨operations, scope, compiled, done⟩ := Query.buildOn_ok built
  rw [queryOps_run] at compiled
  obtain ⟨⟨before, middle⟩, first, compiled⟩ := bind_eq_ok.mp compiled
  obtain ⟨returned, returns, same⟩ := bind_eq_ok.mp compiled
  cases same
  obtain ⟨reached, one, two⟩ := performed_append.mp done
  exact ⟨before, returned, scope, reached, first, returns, one, two⟩

theorem changeOps_passes {b : Bindings} {q : Query} {operations : Ops} {l l' : Live}
    (compiled : changeOps b q = .ok operations) (performed : performAll operations l = .ok l') :
    Passes (Known b []) operations (Known b []) := by
  obtain ⟨set, sets, compiled⟩ := bind_eq_ok.mp compiled
  obtain ⟨deleted, deletes, same⟩ := bind_eq_ok.mp compiled
  cases same
  obtain ⟨middle, written, _⟩ := performed_append.mp performed
  refine (setAll_passes sets written).append ?_
  cases given : q.delete with
  | none =>
      rw [given] at deletes
      cases deletes
      exact .nil fun _ all => all
  | some d =>
      rw [given] at deletes
      exact deleteOps_passes deletes

theorem reachOps_ready {q : Query} {operations : Ops} {scope : Scope} {l : Live}
    (fits : ∀ m ∈ q.matches_, m.Fits)
    (compiled : (reachOps q).run .empty = .ok (operations, scope))
    (performed : performAll operations Live.onGraph = .ok l) :
    Ready scope [] l ∧ scope.started = true := by
  obtain ⟨found, matched, created, written, started, changed, first, second, third, fourth, rfl⟩ :=
    reachOps_parts compiled
  obtain ⟨starts, performed, changing⟩ := performed_append.mp performed
  obtain ⟨creates, performed, starting⟩ := performed_append.mp performed
  obtain ⟨matches_, matching, creating⟩ := performed_append.mp performed
  have known := (Ready.start.matchClauses fits first matching).1
  have begins := (known.createPaths second creating).startOps third starting
  exact ⟨begins.1.pass begins.2 begins.2 (changeOps_passes fourth changing) changing, begins.2⟩

/-- Rows with the columns of the RETURN clause, or nothing without one. -/
def Returned : Option ReturnClause → Stream → Prop
  | none => (· = [])
  | some r => fun stream =>
      (r.items.map ReturnItem.column).Nodup ∧ All (IsRow (r.items.map ReturnItem.column)) stream

theorem returnedOps_passes {b : Bindings} {r : Option ReturnClause} {operations : Ops} {l l' : Live}
    (compiled : returnedOps b r = .ok operations) (performed : performAll operations l = .ok l') :
    Passes (Known b []) operations (Returned r) := by
  cases r with
  | none =>
      cases compiled
      have waits : Passes (Known b []) [.append .barrier []] (Known b []) :=
        .bare ⟨rfl, by decide⟩ (by decide) rfl fun _ _ all => .pure all
      have ends : Passes (Known b []) [.limit 0] (· = []) :=
        .flat ⟨rfl, by decide⟩ (by decide) rfl (.literal (.int 0)) rfl fun _ stream _ => .pure (by
          simp [Application.window, Application.slice, Application.scope, Arguments.scope])
      exact waits.append ends
  | some r =>
      obtain ⟨distinct, passes⟩ := returnOps_passes compiled performed
      exact passes.after fun _ rows => ⟨distinct, rows⟩

/-- A query that is built runs soundly, whether strictly or not. -/
theorem built_carries {q : Query} {l : Live} (fits : ∀ m ∈ q.matches_, m.Fits)
    (built : q.buildOn Live.onGraph = .ok l) :
    l.bound = true ∧ l.plan.Carries (· = []) (Returned q.return_) := by
  obtain ⟨before, returned, scope, reached, compiled, returns, first, second⟩ := built_parts built
  obtain ⟨ready, started⟩ := reachOps_ready fits compiled first
  obtain ⟨stages, builds, _, carry⟩ := returnedOps_passes returns second
  obtain ⟨program, done⟩ := builds reached ready.settled
  cases Except.ok.inj (second.symm.trans done)
  exact ⟨ready.bound, (ready.runs.append carry).plan⟩

end Cypher

end PropertyGraph
