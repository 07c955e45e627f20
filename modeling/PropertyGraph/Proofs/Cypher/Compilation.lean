import PropertyGraph.Proofs.Cypher.Computation

/-!
The script of an expression computes what the expression evaluates to.
-/

namespace PropertyGraph

namespace Expression

theorem evaluateAll_eq (env : Environment) (items : List Expression) :
    evaluateAll env items = (items.map fun e => e.evaluate env).mapM fun result => result := by
  induction items with
  | nil => rfl
  | cons e rest ih => simp [evaluateAll, List.mapM_cons, ih]

theorem evaluateEntries_eq (env : Environment) (entries : List (String × Expression)) :
    evaluateEntries env entries = (entries.map (·.1)).zip <$>
      (entries.map fun entry => entry.2.evaluate env).mapM fun result => result := by
  induction entries with
  | nil => rfl
  | cons entry rest ih =>
      obtain ⟨key, e⟩ := entry
      simp [evaluateEntries, evaluateEntry, List.mapM_cons, ih]

end Expression

namespace Cypher

open Exec Script

theorem function?_eq (op : BinaryOperator) : function? op = op.operation? := by
  cases op <;> rfl

theorem textOperand_literal {right : Expression} {s : String} (found : textOperand right = .ok s) :
    right.literal? = some (.string s) := by
  unfold textOperand at found
  split at found
  · rename_i text known
    cases found
    exact known
  · cases found

theorem membership_test {op : BinaryOperator} (without : function? op = none) {right : Expression}
    {p : Predicate} (found : membership op right = .ok p) :
    right.literal?.bind op.test? = some p := by
  cases op with
  | in_ =>
      simp only [membership] at found
      split at found
      · rename_i items known
        cases found
        simp [known, BinaryOperator.test?]
      · cases found
  | startsWith =>
      obtain ⟨s, text, same⟩ := map_eq_ok.mp found
      cases same
      simp [textOperand_literal text, BinaryOperator.test?]
  | endsWith =>
      obtain ⟨s, text, same⟩ := map_eq_ok.mp found
      cases same
      simp [textOperand_literal text, BinaryOperator.test?]
  | contains =>
      obtain ⟨s, text, same⟩ := map_eq_ok.mp found
      cases same
      simp [textOperand_literal text, BinaryOperator.test?]
  | _ => cases without

theorem test_eq_unknown (v : Value) :
    Predicate.test (.eq Value.unknown) v = decide (v = Value.unknown) := by
  rw [Bool.eq_iff_iff, decide_eq_true_iff]
  simp [Predicate.test, Predicate.looselyEqual, Value.unknown, Value.isNumber]

theorem test_neq_unknown (v : Value) :
    Predicate.test (.neq Value.unknown) v = !decide (v = Value.unknown) := by
  rw [← test_eq_unknown]
  rfl

namespace Leads

variable {b : Bindings} {operand : Ops} {f : Environment → Except ExecutionFault Value}

theorem isUnknown (computes : Computes b operand f) :
    Decides b (operand ++ [Cypher.isUnknown]) fun env =>
      f env >>= fun v => .ok (decide (v = Value.unknown)) := by
  refine (computes.andThen (Moves.tests [.eq Value.unknown])).congr fun env => ?_
  simp only [List.all_cons, List.all_nil, Bool.and_true, test_eq_unknown]

theorem isKnown (computes : Computes b operand f) :
    Decides b (operand ++ [Cypher.isKnown]) fun env =>
      f env >>= fun v => .ok (decide (v ≠ Value.unknown)) := by
  refine (computes.andThen (Moves.tests [.neq Value.unknown])).congr fun env => ?_
  simp only [List.all_cons, List.all_nil, Bool.and_true, test_neq_unknown, decide_not]

theorem isKnownAnd (computes : Computes b operand f) (p : Predicate) :
    Decides b (operand ++ [Cypher.isKnown, .is_ p]) fun env =>
      f env >>= fun v => .ok (decide (v ≠ Value.unknown) && p.test v) := by
  refine (computes.andThen (Moves.tests [.neq Value.unknown, p])).congr fun env => ?_
  simp only [List.all_cons, List.all_nil, Bool.and_true, test_neq_unknown, decide_not]

/-- The unknown value where the operand is unknown, and otherwise whether it passes. -/
theorem tested (computes : Computes b operand f) (p : Predicate) :
    Computes b [Cypher.choice (operand ++ [Cypher.isUnknown]) [.constant Value.unknown]
      [Cypher.truthOf (operand ++ [Cypher.isKnown, .is_ p])]] fun env =>
        f env >>= fun v => .ok (Expression.tested p v) := by
  have unknown : Computes b [.constant Value.unknown] fun _ => .ok Value.unknown :=
    (Moves.constant Value.unknown).leads fun _ _ => rfl
  refine (choice computes.isUnknown unknown (truthOf (computes.isKnownAnd p))).congr fun env => ?_
  cases f env with
  | error fault => rfl
  | ok v => by_cases same : v = Value.unknown <;> simp [bind, Except.bind, Expression.tested, same]

end Leads

theorem scalar_moves {name : String} {operations : Ops} (known : scalar name = .ok operations) :
    Moves IsOne operations fun graph v => Expression.scalarValue graph name v := by
  unfold scalar at known
  split at known <;> cases known
  · exact .id
  · exact .label
  · exact .labels
  · exact .keys
  · exact .apply .toString
  · exact .apply .toInteger
  · exact .apply .toFloat
  · exact .apply .toBoolean
  · exact .apply .size

theorem kindOf_eq {b : Bindings} {name : String} {kind : NameKind}
    (declared : kindOf b name = .ok kind) : Dictionary.get? name b = some kind := by
  unfold kindOf at declared
  split at declared <;> cases declared
  assumption

theorem pairwise_compiled {b : Bindings} {op : BinaryOperator} {f : Function}
    {left right : Expression} {operations : Ops} (function : function? op = some f)
    (compiled : valueOps b (.binary left op right) = .ok operations)
    (performs : Performs operations) : ∃ first second,
      valueOps b left = .ok first ∧ valueOps b right = .ok second ∧
        operations = pairwise f first second ∧ Performs first ∧ Performs second := by
  simp only [valueOps, function] at compiled
  obtain ⟨first, compiledLeft, compiled⟩ := bind_eq_ok.mp compiled
  obtain ⟨second, compiledRight, same⟩ := bind_eq_ok.mp compiled
  cases same
  exact ⟨first, second, compiledLeft, compiledRight, rfl,
    performs.inside List.mem_cons_self List.mem_cons_self,
    performs.inside List.mem_cons_self (by simp)⟩

/-- Operators without a function test the left operand, where it is known. -/
theorem membership_compiled {b : Bindings} {op : BinaryOperator} {left right : Expression}
    {operations : Ops} (without : function? op = none)
    (compiled : valueOps b (.binary left op right) = .ok operations)
    (performs : Performs operations) : ∃ operand p,
      valueOps b left = .ok operand ∧ membership op right = .ok p ∧
        operations = [choice (operand ++ [isUnknown]) [.constant Value.unknown]
          [truthOf (operand ++ [isKnown, .is_ p])]] ∧ Performs operand := by
  simp only [valueOps, without] at compiled
  obtain ⟨operand, compiledLeft, compiled⟩ := bind_eq_ok.mp compiled
  obtain ⟨p, tested, same⟩ := bind_eq_ok.mp compiled
  cases same
  have asked : Performs (operand ++ [isUnknown]) :=
    performs.inside List.mem_cons_self List.mem_cons_self
  exact ⟨operand, p, compiledLeft, tested, rfl, asked.left⟩

mutual

/-- The operations of an expression compute its value, if they can be carried out at all. -/
theorem valueOps_computes {b : Bindings} : (e : Expression) → {operations : Ops} →
    valueOps b e = .ok operations → Performs operations →
      Computes b operations fun env => e.evaluate env
  | .literal v, operations, compiled, _ => by
      cases compiled
      exact ((Moves.constant (literalValue v)).leads fun _ _ => rfl).congr fun env => by
        cases v <;> simp [literalValue, Value.isNull, Expression.evaluate]
  | .reference name, operations, compiled, _ => by
      obtain ⟨kind, declared, compiled⟩ := bind_eq_ok.mp compiled
      cases kind with
      | relationships =>
          cases compiled
          exact .selectAll (kindOf_eq declared)
      | _ =>
          cases compiled
          exact .select (kindOf_eq declared) (by decide)
  | .property owner key, operations, compiled, _ => by
      obtain ⟨kind, declared, compiled⟩ := bind_eq_ok.mp compiled
      by_cases several : kind = .relationships
      · simp [several] at compiled
        cases compiled
      · simp [several] at compiled
        cases compiled
        exact (Leads.select (kindOf_eq declared) several).andThen (.ownProperty key)
  | .list items, operations, compiled, performs => by
      obtain ⟨scripts, several, same⟩ := bind_eq_ok.mp compiled
      cases same
      have compute := valueScripts_compute items several fun inside member =>
        performs.inside List.mem_cons_self (List.mem_map_of_mem member)
      refine (Leads.list compute).congr fun env => ?_
      rw [Expression.evaluate, Expression.evaluateAll_eq, List.map_map]
      rfl
  | .map entries, operations, compiled, performs => by
      obtain ⟨scripts, several, same⟩ := bind_eq_ok.mp compiled
      cases same
      -- a projection without keys is refused, and the operations are not
      have named : entries.map (·.1) ≠ [] := by
        rintro empty
        obtain ⟨l, performed⟩ := performs
        simp [performAll, performOne, Op.project, empty] at performed
        cases performed
      have compute := entryScripts_compute entries several fun inside member =>
        performs.inside (List.mem_cons_of_mem _ (List.mem_map_of_mem member))
          (List.mem_singleton.mpr rfl)
      refine (Leads.project named compute ?_).congr fun env => ?_
      · rw [List.length_map, compute.length_eq, List.length_map]
      · rw [Expression.evaluate, Expression.evaluateEntries_eq, List.map_map, map_eq_pure_bind,
          bind_assoc]
        rfl
  | .binary left op right, operations, compiled, performs => by
      cases function : function? op with
      | some f =>
          obtain ⟨first, second, compiledLeft, compiledRight, rfl, performsLeft, performsRight⟩ :=
            pairwise_compiled function compiled performs
          have computesLeft := valueOps_computes left compiledLeft performsLeft
          have computesRight := valueOps_computes right compiledRight performsRight
          refine (computesLeft.pairwise computesRight f).congr fun env => ?_
          rw [function?_eq] at function
          simp only [Expression.evaluate, function]
      | none =>
          obtain ⟨operand, p, compiledLeft, tested, rfl, performsLeft⟩ :=
            membership_compiled function compiled performs
          have computes := valueOps_computes left compiledLeft performsLeft
          refine (Leads.tested computes p).congr fun env => ?_
          have found := membership_test function tested
          rw [function?_eq] at function
          simp only [Expression.evaluate, function, found]
          rfl
  | .not operand, operations, compiled, performs => by
      obtain ⟨inside, compiledInside, same⟩ := bind_eq_ok.mp compiled
      cases same
      exact (valueOps_computes operand compiledInside performs.left).andThen (.apply .not)
  | .negate operand, operations, compiled, performs => by
      obtain ⟨inside, compiledInside, same⟩ := bind_eq_ok.mp compiled
      cases same
      have zero : Computes b [.constant (.int 0)] fun _ => .ok (.int 0) :=
        (Moves.constant (.int 0)).leads fun _ _ => rfl
      exact zero.pairwise (valueOps_computes operand compiledInside
        (performs.inside List.mem_cons_self (by simp))) .minus
  | .isNull operand, operations, compiled, performs => by
      obtain ⟨inside, compiledInside, same⟩ := bind_eq_ok.mp compiled
      cases same
      have computes := valueOps_computes operand compiledInside
        (performs.inside List.mem_cons_self List.mem_cons_self).left
      refine (Leads.truthOf computes.isUnknown).congr fun env => ?_
      rw [bind_assoc]
      rfl
  | .isNotNull operand, operations, compiled, performs => by
      obtain ⟨inside, compiledInside, same⟩ := bind_eq_ok.mp compiled
      cases same
      have computes := valueOps_computes operand compiledInside
        (performs.inside List.mem_cons_self List.mem_cons_self).left
      refine (Leads.truthOf computes.isKnown).congr fun env => ?_
      rw [bind_assoc]
      rfl
  | .call name distinct arguments, operations, compiled, performs => by
      unfold valueOps at compiled
      split at compiled
      · cases compiled
      · match arguments with
        | [argument] =>
            obtain ⟨inside, compiledInside, compiled⟩ := bind_eq_ok.mp compiled
            obtain ⟨steps, known, same⟩ := bind_eq_ok.mp compiled
            cases same
            have computes := valueOps_computes argument compiledInside performs.left
            refine (computes.andThen (scalar_moves known)).congr fun env => ?_
            simp only [Expression.evaluate, Expression.evaluateAll, bind_assoc, pure_bind]
            rfl
        | [] => cases compiled
        | _ :: _ :: _ => cases compiled
  | .countAll, operations, compiled, _ => by cases compiled

theorem valueScripts_compute {b : Bindings} : (items : List Expression) → {scripts : List Script} →
    valueScripts b items = .ok scripts →
    (∀ inside, .of inside ∈ scripts → Performs inside) →
      Compute b scripts (items.map fun e env => e.evaluate env)
  | [], scripts, compiled, _ => by
      cases compiled
      exact .nil
  | e :: rest, scripts, compiled, performs => by
      obtain ⟨script, one, others⟩ := bind_eq_ok.mp compiled
      obtain ⟨inside, compiledInside, rfl⟩ := map_eq_ok.mp one
      obtain ⟨more, several, same⟩ := bind_eq_ok.mp others
      cases same
      exact .cons ⟨inside, rfl, valueOps_computes e compiledInside (performs _ List.mem_cons_self)⟩
        (valueScripts_compute rest several fun _ member =>
          performs _ (List.mem_cons_of_mem _ member))

theorem entryScripts_compute {b : Bindings} :
    (entries : List (String × Expression)) → {scripts : List Script} →
    entryScripts b entries = .ok scripts →
    (∀ inside, .of inside ∈ scripts → Performs inside) →
      Compute b scripts (entries.map fun entry env => entry.2.evaluate env)
  | [], scripts, compiled, _ => by
      cases compiled
      exact .nil
  | entry :: rest, scripts, compiled, performs => by
      obtain ⟨script, one, others⟩ := bind_eq_ok.mp compiled
      obtain ⟨more, several, same⟩ := bind_eq_ok.mp others
      cases same
      have first := entryScript_computes entry one fun _ same =>
        performs _ (same ▸ List.mem_cons_self)
      exact .cons first (entryScripts_compute rest several fun _ member =>
        performs _ (List.mem_cons_of_mem _ member))

theorem entryScript_computes {b : Bindings} : (entry : String × Expression) → {script : Script} →
    entryScript b entry = .ok script → (∀ inside, script = .of inside → Performs inside) →
      ∃ operations, script = .of operations ∧
        Computes b operations fun env => entry.2.evaluate env
  | (key, e), script, compiled, performs => by
      obtain ⟨inside, compiledInside, rfl⟩ := map_eq_ok.mp compiled
      exact ⟨inside, rfl, valueOps_computes e compiledInside (performs _ rfl)⟩

end

/-- The plan of an expression leads a traverser whose labels bind the variables of the scope to
exactly one traverser, at the value of the expression, or fails as the evaluation does. -/
theorem value_script_yields_evaluation {b : Bindings} {e : Expression} {script : Script} {l : Live}
    (translated : valueScript b e = .ok script) (built : script.perform Backend.floating = .ok l)
    (engine : Engine) (world : World) (t : Traverser) (binds : t.Binds b)
    (exposes : world.Exposes t b) :
    Shows world IsOne (l.plan.run engine [t])
      (e.evaluate (.onPath b world.store.graph t)) := by
  obtain ⟨operations, compiled, rfl⟩ := map_eq_ok.mp translated
  obtain ⟨plan, makes, run⟩ := (valueOps_computes e compiled ⟨l, built⟩).child
  have covers := Environment.onPath_covers world.store.graph binds
  rw [← Environment.seenFrom_eq exposes] at covers ⊢
  rw [Builds.held makes built]
  exact run engine world t covers

/-- A sum with a property of a vertex. -/
theorem property_sum_yields_evaluation : ∃ (script : Script) (l : Live) (t : Traverser),
    valueScript [("n", .node)] (.binary (.property "n" "age") .add (.literal (.int 1))) =
        .ok script ∧
      script.perform Backend.floating = .ok l ∧ t.Binds [("n", .node)] ∧
      World.Exposes ⟨(Store.empty.addVertex "person" [("age", .int 3)]).2, []⟩ t [("n", .node)] ∧
      Shows ⟨(Store.empty.addVertex "person" [("age", .int 3)]).2, []⟩ IsOne
        (l.plan.run (.standard 0) [t]) (.ok (.int 4)) := by
  have binds : Traverser.Binds ⟨⟨["n"], .vertex ⟨⟨1⟩, "person"⟩⟩, [], []⟩ [("n", .node)] := by
    intro name kind declared _
    simp [Dictionary.get?] at declared
    simp [← declared.1, Traverser.labelled]
  have exposes : World.Exposes
      ⟨(Store.empty.addVertex "person" [("age", .int 3)]).2, []⟩
      ⟨⟨["n"], .vertex ⟨⟨1⟩, "person"⟩⟩, [], []⟩ [("n", .node)] := by
    intro name _
    exact ⟨rfl, rfl⟩
  refine ⟨_, _, _, rfl, rfl, binds, exposes, ?_⟩
  exact value_script_yields_evaluation (b := [("n", .node)])
    (e := .binary (.property "n" "age") .add (.literal (.int 1))) rfl rfl (.standard 0) _ _ binds
    exposes

/-- Labels alone do not do: an entry of a map at hand stands before what its key labels. -/
theorem labels_alone_do_not_fix_values : ¬ ∀ (b : Bindings) (e : Expression) (script : Script)
    (l : Live) (engine : Engine) (world : World) (t : Traverser), valueScript b e = .ok script →
      script.perform Backend.floating = .ok l → t.Binds b →
        Shows world IsOne (l.plan.run engine [t]) (e.evaluate (.onPath b world.store.graph t)) := by
  intro claimed
  have binds : Traverser.Binds ⟨⟨["n"], .map [(.string "n", .int 1)]⟩, [], []⟩
      [("n", .node)] := by
    intro name kind declared _
    simp [Dictionary.get?] at declared
    simp [← declared.1, Traverser.labelled]
  obtain ⟨stream, gives, u, rfl, same⟩ :=
    claimed [("n", .node)] (.reference "n") _ _ (.standard 0) ⟨.empty, []⟩ _ rfl rfl binds
  cases gives
  cases same

end Cypher

end PropertyGraph
