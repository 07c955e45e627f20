import PropertyGraph.Proofs.Cypher.Compilation
import PropertyGraph.Proofs.Cypher.Passage

/-!
Scripts of expressions lead every traverser that knows the variables of the scope to one value, and
scripts of conditions ask it without a fault of their own.
-/

namespace PropertyGraph

namespace Traverser

variable {t : Traverser} {b : Cypher.Bindings}

theorem Binds.split (binds : t.Binds b) (v : Value) : (t.split v).Binds b := by
  intro name kind declared single
  rw [labelled_split]
  exact binds name kind declared single

theorem named?_labelled {name : String} (known : t.labelled name ≠ []) :
    (t.named? .last name).isSome = true := by
  simp only [named?, World.named?, Dictionary.get?, pathValue?]
  split
  · rfl
  · exact List.getLast?_isSome.mpr known

theorem Binds.finds (binds : t.Binds b) {name : String} {kind : NameKind}
    (declared : Dictionary.get? name b = some kind) (single : kind ≠ .relationships) :
    (t.named? .last name).isSome = true :=
  named?_labelled (binds name kind declared single)

end Traverser

namespace Cypher

open Exec Script

variable {R : Traverser → Prop} {b : Bindings} {operations : Ops}

/-- One value for each traverser that knows the variables. -/
abbrev Values (b : Bindings) (operations : Ops) : Prop :=
  Passes (Count 1 fun t => t.Binds b) operations (Count 1 Anything)

/-- Something or nothing for each traverser that knows the variables. -/
abbrev Asks (b : Bindings) (operations : Ops) : Prop :=
  Passes (Count 1 fun t => t.Binds b) operations fun _ => True

namespace Passes

theorem tests (values : Values b operations) (ps : List Predicate) :
    Asks b (operations ++ ps.map .is_) := by
  have filters : Passes (All Anything) (ps.map .is_) (All Anything) := by
    induction ps with
    | nil => exact .nil fun _ all => all
    | cons p rest ih => exact (Passes.is_ p).append ih
  exact values.append (filters.imp (fun _ count => count.all) fun _ _ => trivial)

theorem pair {Pre Post : Stream → Prop} {first second : Ops} (passes : Passes Pre first Post)
    (next : Passes Pre second Post) : ∀ script ∈ [Script.of first, .of second],
      ∃ inside, script = .of inside ∧ Passes Pre inside Post := by
  intro script member
  rcases List.mem_cons.mp member with rfl | other
  · exact ⟨first, rfl, passes⟩
  · exact ⟨second, List.mem_singleton.mp other, next⟩

theorem unary {f : Function} (unary : f.isUnary = true) :
    Passes (Count 1 Anything) [.apply f] (Count 1 Anything) :=
  apply fun _ _ _ failed => Function.apply_unary_ordinary unary failed

theorem pairwise {left right : Ops} {f : Function} (pairs : f.isUnary = false)
    (first : Passes (Count 1 R) left (Count 1 Anything))
    (second : Passes (Count 1 R) right (Count 1 Anything)) :
    Passes (Count 1 R) (Cypher.pairwise f left right) (Count 1 Anything) := by
  have both : Passes (Count 1 R) [.nested .union [.of left, .of right]] (Count 2 Anything) :=
    union (pair first second)
  refine (both.append fold).append (apply fun _ known fault failed => ?_)
  obtain ⟨members, listed, two⟩ := known
  obtain ⟨u, v, rfl⟩ := List.length_eq_two.mp two.length
  rw [listed] at failed
  exact Function.apply_pair_ordinary pairs failed

theorem list {scripts : List Script} (passes : ∀ script ∈ scripts, ∃ inside,
      script = .of inside ∧ Passes (Count 1 R) inside (Count 1 Anything)) :
    Passes (Count 1 R) [.nested .union scripts, .append .fold []] (Count 1 Anything) :=
  (union passes).append (fold.after fun _ count => count.imp fun _ _ => trivial)

theorem label : Passes (Count 1 Anything) [.append .label []] (Count 1 Anything) := by
  refine bare ⟨rfl, by decide⟩ (by decide) rfl fun engine stream count => ?_
  have moves : ∀ t ∈ stream, ∀ v, Anything (t.split v) := fun _ _ _ => trivial
  have sound := Application.label_sound ⟨.label, [], [], []⟩ moves
  rwa [count.length] at sound

theorem id : Passes (Count 1 Anything) [.append .id []] (Count 1 Anything) := by
  refine bare ⟨rfl, by decide⟩ (by decide) rfl fun engine stream count => ?_
  have moves : ∀ t ∈ stream, ∀ v, Anything (t.split v) := fun _ _ _ => trivial
  have sound := Application.id_sound moves
  rwa [count.length] at sound

theorem anyFold : Passes (fun _ => True) [.append .fold []] (Count 1 Anything) :=
  fold.after fun _ count => count.imp fun _ _ => trivial

theorem scalar {name : String} (known : Cypher.scalar name = .ok operations) :
    Passes (Count 1 Anything) operations (Count 1 Anything) := by
  unfold Cypher.scalar at known
  split at known <;> cases known
  · exact id
  · exact label
  · exact label.append (anyFold.before fun _ _ => trivial)
  · have properties : Passes (Count 1 Anything) [.labelled .properties []] fun _ => True :=
      labelled ⟨rfl, by decide⟩ (by decide) rfl [] fun _ stream _ =>
        Application.properties_sound _ stream
    have keys : Passes (fun _ => True) [.append .key []] fun _ => True :=
      bare ⟨rfl, by decide⟩ (by decide) rfl fun _ stream _ => Application.key_sound _ stream
    exact (properties.append keys).append anyFold
  all_goals exact unary rfl

theorem variable_ {name : String} {kind : NameKind} (declared : kindOf b name = .ok kind)
    (single : kind ≠ .relationships) : Values b [.select [name]] :=
  select (fun _ binds => binds.finds (kindOf_eq declared) single) (fun _ _ _ _ => trivial)
    fun _ _ count => ⟨count.all, fun reached => count.length ▸ reached⟩

end Passes

theorem function?_binary {op : BinaryOperator} {f : Function} (found : function? op = some f) :
    f.isUnary = false := by
  cases op <;> cases found <;> rfl

mutual

/-- The script of an expression finds one value for each traverser. -/
theorem valueOps_passes {b : Bindings} : (e : Expression) → {operations : Ops} →
    valueOps b e = .ok operations → Performs operations → Values b operations
  | .literal v, operations, compiled, _ => by
      cases compiled
      exact .constant _ fun _ _ => trivial
  | .reference name, operations, compiled, _ => by
      obtain ⟨kind, declared, compiled⟩ := bind_eq_ok.mp compiled
      cases kind with
      | relationships =>
          cases compiled
          exact .selectAll name fun _ _ _ => trivial
      | _ =>
          cases compiled
          exact .variable_ declared (by decide)
  | .property owner key, operations, compiled, _ => by
      obtain ⟨kind, declared, compiled⟩ := bind_eq_ok.mp compiled
      by_cases several : kind = .relationships
      · simp [several] at compiled
        cases compiled
      · simp [several] at compiled
        cases compiled
        exact (Passes.variable_ declared several).append (.ownProperty key)
  | .list items, operations, compiled, performs => by
      obtain ⟨scripts, several, same⟩ := bind_eq_ok.mp compiled
      cases same
      exact .list (valueScripts_pass items several fun inside member =>
        performs.inside List.mem_cons_self (List.mem_map_of_mem member))
  | .map entries, operations, compiled, performs => by
      obtain ⟨scripts, several, same⟩ := bind_eq_ok.mp compiled
      cases same
      have named : entries.map (·.1) ≠ [] := by
        rintro empty
        obtain ⟨l, performed⟩ := performs
        simp [performAll, performOne, Op.project, empty] at performed
        cases performed
      have values := entryScripts_pass entries several fun inside member =>
        performs.inside (List.mem_cons_of_mem _ (List.mem_map_of_mem member))
          (List.mem_singleton.mpr rfl)
      refine .project named (fun op member => ?_) (fun _ _ _ _ => trivial)
        fun _ _ count => ⟨count.all, fun reached => count.length ▸ reached⟩
      obtain ⟨script, listed, rfl⟩ := List.mem_map.mp member
      obtain ⟨inside, rfl, passes⟩ := values script listed
      exact .by_ passes
  | .binary left op right, operations, compiled, performs => by
      cases function : function? op with
      | some f =>
          obtain ⟨first, second, compiledLeft, compiledRight, rfl, performsLeft, performsRight⟩ :=
            pairwise_compiled function compiled performs
          exact .pairwise (function?_binary function)
            (valueOps_passes left compiledLeft performsLeft)
            (valueOps_passes right compiledRight performsRight)
      | none =>
          obtain ⟨operand, p, compiledLeft, _, rfl, performsLeft⟩ :=
            membership_compiled function compiled performs
          have values := valueOps_passes left compiledLeft performsLeft
          exact .choice (values.tests [.eq Value.unknown]) (.constant _ fun _ _ => trivial)
            (.truthOf (values.tests [.neq Value.unknown, p]))
  | .not operand, operations, compiled, performs => by
      obtain ⟨inside, compiledInside, same⟩ := bind_eq_ok.mp compiled
      cases same
      exact (valueOps_passes operand compiledInside performs.left).append (.unary rfl)
  | .negate operand, operations, compiled, performs => by
      obtain ⟨inside, compiledInside, same⟩ := bind_eq_ok.mp compiled
      cases same
      exact .pairwise rfl (.constant _ fun _ _ => trivial) (valueOps_passes operand compiledInside
        (performs.inside List.mem_cons_self (by simp)))
  | .isNull operand, operations, compiled, performs => by
      obtain ⟨inside, compiledInside, same⟩ := bind_eq_ok.mp compiled
      cases same
      have values := valueOps_passes operand compiledInside
        (performs.inside List.mem_cons_self List.mem_cons_self).left
      exact .truthOf (values.tests [.eq Value.unknown])
  | .isNotNull operand, operations, compiled, performs => by
      obtain ⟨inside, compiledInside, same⟩ := bind_eq_ok.mp compiled
      cases same
      have values := valueOps_passes operand compiledInside
        (performs.inside List.mem_cons_self List.mem_cons_self).left
      exact .truthOf (values.tests [.neq Value.unknown])
  | .call name distinct arguments, operations, compiled, performs => by
      unfold valueOps at compiled
      split at compiled
      · cases compiled
      · match arguments with
        | [argument] =>
            obtain ⟨inside, compiledInside, compiled⟩ := bind_eq_ok.mp compiled
            obtain ⟨steps, known, same⟩ := bind_eq_ok.mp compiled
            cases same
            exact (valueOps_passes argument compiledInside performs.left).append (.scalar known)
        | [] => cases compiled
        | _ :: _ :: _ => cases compiled
  | .countAll, operations, compiled, _ => by cases compiled

theorem valueScripts_pass {b : Bindings} : (items : List Expression) → {scripts : List Script} →
    valueScripts b items = .ok scripts → (∀ inside, .of inside ∈ scripts → Performs inside) →
      ∀ script ∈ scripts, ∃ inside, script = .of inside ∧ Values b inside
  | [], scripts, compiled, _ => by
      cases compiled
      exact nofun
  | e :: rest, scripts, compiled, performs => by
      obtain ⟨script, one, others⟩ := bind_eq_ok.mp compiled
      obtain ⟨inside, compiledInside, rfl⟩ := map_eq_ok.mp one
      obtain ⟨more, several, same⟩ := bind_eq_ok.mp others
      cases same
      exact List.forall_mem_cons.mpr
        ⟨⟨inside, rfl, valueOps_passes e compiledInside (performs _ List.mem_cons_self)⟩,
          valueScripts_pass rest several fun _ member =>
            performs _ (List.mem_cons_of_mem _ member)⟩

theorem entryScripts_pass {b : Bindings} :
    (entries : List (String × Expression)) → {scripts : List Script} →
    entryScripts b entries = .ok scripts → (∀ inside, .of inside ∈ scripts → Performs inside) →
      ∀ script ∈ scripts, ∃ inside, script = .of inside ∧ Values b inside
  | [], scripts, compiled, _ => by
      cases compiled
      exact nofun
  | entry :: rest, scripts, compiled, performs => by
      obtain ⟨script, one, others⟩ := bind_eq_ok.mp compiled
      obtain ⟨more, several, same⟩ := bind_eq_ok.mp others
      cases same
      exact List.forall_mem_cons.mpr
        ⟨entryScript_passes entry one fun _ same => performs _ (same ▸ List.mem_cons_self),
          entryScripts_pass rest several fun _ member =>
            performs _ (List.mem_cons_of_mem _ member)⟩

theorem entryScript_passes {b : Bindings} : (entry : String × Expression) → {script : Script} →
    entryScript b entry = .ok script → (∀ inside, script = .of inside → Performs inside) →
      ∃ inside, script = .of inside ∧ Values b inside
  | (_, e), script, compiled, performs => by
      obtain ⟨inside, compiledInside, rfl⟩ := map_eq_ok.mp compiled
      exact ⟨inside, rfl, valueOps_passes e compiledInside (performs _ rfl)⟩

end

theorem comparisonOps_passes {op : BinaryOperator} {f : Function}
    (found : comparison? op = some f) {left right : Expression}
    (compiled : comparisonOps b op f left right = .ok operations)
    (performs : Performs operations) : Asks b operations := by
  have pairs : f.isUnary = false := by cases op <;> cases found <;> rfl
  unfold comparisonOps at compiled
  split at compiled
  · obtain ⟨operand, compiledLeft, same⟩ := bind_eq_ok.mp compiled
    cases same
    exact (valueOps_passes left compiledLeft performs.left).tests [.neq Value.unknown, _]
  · obtain ⟨operand, compiledRight, same⟩ := bind_eq_ok.mp compiled
    cases same
    exact (valueOps_passes right compiledRight performs.left).tests [.neq Value.unknown, _]
  · obtain ⟨first, compiledLeft, compiled⟩ := bind_eq_ok.mp compiled
    obtain ⟨second, compiledRight, same⟩ := bind_eq_ok.mp compiled
    cases same
    have both : Values b (pairwise f first second) := .pairwise pairs
      (valueOps_passes left compiledLeft (performs.inside List.mem_cons_self (by simp)))
      (valueOps_passes right compiledRight (performs.inside List.mem_cons_self (by simp)))
    exact both.tests [.eq (.bool true)]

theorem tested_passes {e : Expression} (ps : List Predicate)
    (compiled : (do return (← valueOps b e) ++ ps.map .is_) = Except.ok operations)
    (performs : Performs operations) : Asks b operations := by
  obtain ⟨inside, compiledInside, same⟩ := bind_eq_ok.mp compiled
  cases same
  exact (valueOps_passes e compiledInside performs.left).tests ps

theorem conditionOps_passes {e : Expression} (compiled : conditionOps b e = .ok operations)
    (performs : Performs operations) : Asks b operations := by
  have filter {condition : Ops} (filters : Passes (All fun t => t.Binds b) condition
      (All fun t => t.Binds b)) : Asks b condition :=
    filters.imp (fun _ count => count.all) fun _ _ => trivial
  fun_induction conditionOps b e generalizing operations with
  | case1 left right ihLeft ihRight =>
      obtain ⟨first, compiledLeft, compiled⟩ := bind_eq_ok.mp compiled
      obtain ⟨second, compiledRight, same⟩ := bind_eq_ok.mp compiled
      cases same
      exact filter (.and (Passes.pair
        (ihLeft compiledLeft (performs.inside List.mem_cons_self (by simp)))
        (ihRight compiledRight (performs.inside List.mem_cons_self (by simp)))))
  | case2 left right ihLeft ihRight =>
      obtain ⟨first, compiledLeft, compiled⟩ := bind_eq_ok.mp compiled
      obtain ⟨second, compiledRight, same⟩ := bind_eq_ok.mp compiled
      cases same
      exact filter (.or (Passes.pair
        (ihLeft compiledLeft (performs.inside List.mem_cons_self (by simp)))
        (ihRight compiledRight (performs.inside List.mem_cons_self (by simp)))))
  | case3 left op right _ _ f found => exact comparisonOps_passes found compiled performs
  | case4 left op right =>
      obtain ⟨p, tested, compiled⟩ := bind_eq_ok.mp compiled
      exact tested_passes [.neq Value.unknown, p] compiled performs
  | case5 => exact tested_passes [.eq (.bool true)] compiled performs
  | case6 => exact tested_passes [.eq (.bool false)] compiled performs
  | case7 => exact tested_passes [.eq Value.unknown] compiled performs
  | case8 => exact tested_passes [.neq Value.unknown] compiled performs
  | case9 =>
      cases compiled
      exact filter (.bare ⟨rfl, by decide⟩ (by decide) rfl fun _ _ all => .pure all)
  | case10 | case11 =>
      cases compiled
      exact filter (.limit 0)
  | case12 => exact tested_passes [.eq (.bool true)] compiled performs

end Cypher

end PropertyGraph
