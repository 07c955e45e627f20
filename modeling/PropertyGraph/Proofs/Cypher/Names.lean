import PropertyGraph.Proofs.Builder.Admission
import PropertyGraph.Proofs.Builder.Parity
import PropertyGraph.Cypher.ExpressionScript

/-!
The names in expressions. The script of an expression looks up no other names, and depends on the
scope only through what these names are bound to.
-/

namespace PropertyGraph

namespace Expression

mutual

def names : Expression → List String
  | .literal _ | .countAll => []
  | .reference name => [name]
  | .property owner _ => [owner]
  | .list items => namesOfAll items
  | .map entries => namesOfEntries entries
  | .binary left _ right => left.names ++ right.names
  | .not operand | .negate operand | .isNull operand | .isNotNull operand => operand.names
  | .call _ _ arguments => namesOfAll arguments

def namesOfAll : List Expression → List String
  | [] => []
  | e :: rest => e.names ++ namesOfAll rest

def namesOfEntries : List (String × Expression) → List String
  | [] => []
  | entry :: rest => namesOfEntry entry ++ namesOfEntries rest

def namesOfEntry : String × Expression → List String
  | (_, e) => e.names

end

end Expression

namespace Cypher

open Script

variable {view : View} {b b' : Bindings} {α β : Type}

/-- Both compilations end with the same fault or the same result, for which something holds. -/
def Yields {ε : Type} (P : α → Prop) : Except ε α → Except ε α → Prop :=
  Alike fun left right => left = right ∧ P left

namespace Yields

variable {ε : Type} {P : α → Prop} {Q : β → Prop}

theorem ok {a : α} (holds : P a) : Yields (ε := ε) P (.ok a) (.ok a) := Alike.ok ⟨rfl, holds⟩

theorem error (fault : ε) : Yields P (.error fault) (.error fault) :=
  Alike.error fault

theorem bind {left right : Except ε α} {f g : α → Except ε β} (first : Yields P left right)
    (next : ∀ a, P a → Yields Q (f a) (g a)) : Yields Q (left >>= f) (right >>= g) :=
  Alike.bind first fun a _ ⟨same, holds⟩ => same ▸ next a holds

theorem map {left right : Except ε α} {f : α → β} (first : Yields P left right)
    (keeps : ∀ a, P a → Q (f a)) : Yields Q (f <$> left) (f <$> right) := by
  rw [map_eq_pure_bind, map_eq_pure_bind]
  exact first.bind fun a holds => ok (keeps a holds)

theorem of_eq {left right : Except ε α} (same : left = right) (holds : ∀ a, left = .ok a → P a) :
    Yields P left right := by
  subst same
  cases left with
  | ok a => exact ok (holds a rfl)
  | error fault => exact error fault

end Yields

/-- The view admits the name, and two scopes bind it alike. -/
structure Knows (view : View) (b b' : Bindings) (name : String) : Prop where
  reads : view.reads name
  bound : Dictionary.get? name b = Dictionary.get? name b'

theorem kindOf_yields {name : String} (knows : Knows view b b' name) :
    Yields (fun _ => True) (kindOf b name) (kindOf b' name) := by
  refine .of_eq ?_ fun _ _ => trivial
  rw [kindOf, kindOf, knows.bound]

namespace Admits

variable {left right operand : Ops}

theorem ownProperty (key : String) : view.AdmitsOp (ownProperty key) := by
  refine View.admitsOp_nested trivial fun script member => ?_
  rcases List.mem_cons.mp member with rfl | rest
  · exact ⟨View.admitsOp_blind rfl [key], trivial⟩
  · cases List.mem_singleton.mp rest
    exact ⟨View.admitsOp_constant _, trivial⟩

theorem pairwise (f : Function) (first : view.AdmitsOps left) (second : view.AdmitsOps right) :
    view.AdmitsOps (pairwise f left right) := by
  have both : view.AdmitsOp (.nested .union [.of left, .of right]) := by
    refine View.admitsOp_nested trivial fun script member => ?_
    rcases List.mem_cons.mp member with rfl | rest
    · exact first
    · cases List.mem_singleton.mp rest
      exact second
  exact ⟨both, View.admitsOp_bare rfl, View.admitsOp_apply f, trivial⟩

theorem choice {condition yes no : Ops} (asks : view.AdmitsOps condition)
    (first : view.AdmitsOps yes) (second : view.AdmitsOps no) :
    view.AdmitsOp (choice condition yes no) := by
  refine View.admitsOp_nested trivial fun script member => ?_
  simp only [List.mem_cons, List.not_mem_nil, or_false] at member
  rcases member with rfl | rfl | rfl
  · exact asks
  · exact first
  · exact second

theorem truthOf {condition : Ops} (asks : view.AdmitsOps condition) :
    view.AdmitsOp (truthOf condition) :=
  choice asks ⟨View.admitsOp_constant _, trivial⟩ ⟨View.admitsOp_constant _, trivial⟩

theorem tests (inside : view.AdmitsOps operand) (predicates : List Predicate) :
    view.AdmitsOps (operand ++ predicates.map .is_) := by
  refine View.admitsOps_append.mpr ⟨inside, View.admitsOps_iff.mpr fun op member => ?_⟩
  obtain ⟨p, _, rfl⟩ := List.mem_map.mp member
  exact View.admitsOp_is p

theorem scalar {name : String} {operations : Ops} (known : scalar name = .ok operations) :
    view.AdmitsOps operations := by
  unfold Cypher.scalar at known
  split at known <;> cases known
  · exact ⟨View.admitsOp_bare rfl, trivial⟩
  · exact ⟨View.admitsOp_bare rfl, trivial⟩
  · exact ⟨View.admitsOp_bare rfl, View.admitsOp_bare rfl, trivial⟩
  · exact ⟨View.admitsOp_blind rfl [], View.admitsOp_bare rfl, View.admitsOp_bare rfl, trivial⟩
  · exact ⟨View.admitsOp_apply _, trivial⟩
  · exact ⟨View.admitsOp_apply _, trivial⟩
  · exact ⟨View.admitsOp_apply _, trivial⟩
  · exact ⟨View.admitsOp_apply _, trivial⟩
  · exact ⟨View.admitsOp_apply _, trivial⟩

theorem selectOne {name : String} (reads : view.reads name) :
    view.AdmitsOp (.select [name]) :=
  View.admitsOp_select fun _ member => List.mem_singleton.mp member ▸ reads

end Admits

mutual

theorem valueOps_yields : (e : Expression) → (∀ name ∈ e.names, Knows view b b' name) →
    Yields view.AdmitsOps (valueOps b e) (valueOps b' e)
  | .literal v, _ => .ok ⟨View.admitsOp_constant _, trivial⟩
  | .reference name, knows => by
      have known := knows name (List.mem_singleton.mpr rfl)
      refine (kindOf_yields known).bind fun kind _ => ?_
      cases kind with
      | relationships => exact .ok ⟨View.admitsOp_selectLabel _ known.reads, trivial⟩
      | _ => exact .ok ⟨Admits.selectOne known.reads, trivial⟩
  | .property owner key, knows => by
      have known := knows owner (List.mem_singleton.mpr rfl)
      refine (kindOf_yields known).bind fun kind _ => ?_
      dsimp only
      split
      · exact .error _
      · exact .ok ⟨Admits.selectOne known.reads, Admits.ownProperty key, trivial⟩
  | .list items, knows => by
      refine (valueScripts_yield items knows).bind fun scripts inside => ?_
      exact .ok ⟨View.admitsOp_nested trivial inside, View.admitsOp_bare rfl, trivial⟩
  | .map entries, knows => by
      refine (entryScripts_yield entries knows).bind fun scripts inside => ?_
      refine .ok ⟨View.admitsOp_project _, View.admitsOps_iff.mpr fun op member => ?_⟩
      obtain ⟨script, given, rfl⟩ := List.mem_map.mp member
      refine View.admitsOp_nested trivial fun other same => ?_
      exact List.mem_singleton.mp same ▸ inside script given
  | .binary left op right, knows => by
      have first := valueOps_yields left fun name member =>
        knows name (List.mem_append_left _ member)
      have second := valueOps_yields right fun name member =>
        knows name (List.mem_append_right _ member)
      unfold valueOps
      split
      · exact first.bind fun _ inside => second.bind fun _ others =>
          .ok (Admits.pairwise _ inside others)
      · refine first.bind fun operand inside => ?_
        refine Yields.bind (.of_eq rfl fun _ _ => trivial) fun p (_ : True) => ?_
        have unknown := Admits.tests inside [.eq Value.unknown]
        have tested := Admits.tests inside [.neq Value.unknown, p]
        exact .ok ⟨Admits.choice unknown ⟨View.admitsOp_constant _, trivial⟩
          ⟨Admits.truthOf tested, trivial⟩, trivial⟩
  | .not operand, knows => by
      refine (valueOps_yields operand knows).bind fun inside admitted => ?_
      exact .ok (View.admitsOps_append.mpr ⟨admitted, View.admitsOp_apply _, trivial⟩)
  | .negate operand, knows => by
      refine (valueOps_yields operand knows).bind fun inside admitted => ?_
      exact .ok (Admits.pairwise _ ⟨View.admitsOp_constant _, trivial⟩ admitted)
  | .isNull operand, knows => by
      refine (valueOps_yields operand knows).bind fun inside admitted => ?_
      exact .ok ⟨Admits.truthOf (Admits.tests admitted [.eq Value.unknown]), trivial⟩
  | .isNotNull operand, knows => by
      refine (valueOps_yields operand knows).bind fun inside admitted => ?_
      exact .ok ⟨Admits.truthOf (Admits.tests admitted [.neq Value.unknown]), trivial⟩
  | .call name _ arguments, knows => by
      unfold valueOps
      split
      · exact .error _
      · match arguments, knows with
        | [argument], knows =>
            have known := valueOps_yields argument fun name member =>
              knows name (List.mem_append_left _ member)
            refine known.bind fun operand inside => ?_
            have steps : Yields view.AdmitsOps (scalar name) (scalar name) :=
              .of_eq rfl fun _ same => Admits.scalar same
            exact steps.bind fun _ others => .ok (View.admitsOps_append.mpr ⟨inside, others⟩)
        | [], _ => exact .error _
        | _ :: _ :: _, _ => exact .error _
  | .countAll, _ => .error _

theorem valueScripts_yield : (items : List Expression) →
    (∀ name ∈ Expression.namesOfAll items, Knows view b b' name) →
    Yields (fun scripts => ∀ script ∈ scripts, view.AdmitsScript script) (valueScripts b items)
      (valueScripts b' items)
  | [], _ => .ok nofun
  | e :: rest, knows => by
      have first : Yields view.AdmitsScript (.of <$> valueOps b e) (.of <$> valueOps b' e) :=
        (valueOps_yields e fun name member => knows name (List.mem_append_left _ member)).map
          fun _ inside => inside
      have others := valueScripts_yield rest fun name member =>
        knows name (List.mem_append_right _ member)
      refine first.bind fun script inside => ?_
      exact others.bind fun scripts more => .ok (List.forall_mem_cons.mpr ⟨inside, more⟩)

theorem entryScripts_yield : (entries : List (String × Expression)) →
    (∀ name ∈ Expression.namesOfEntries entries, Knows view b b' name) →
    Yields (fun scripts => ∀ script ∈ scripts, view.AdmitsScript script) (entryScripts b entries)
      (entryScripts b' entries)
  | [], _ => .ok nofun
  | entry :: rest, knows => by
      have first := entryScript_yields entry fun name member =>
        knows name (List.mem_append_left _ member)
      have others := entryScripts_yield rest fun name member =>
        knows name (List.mem_append_right _ member)
      refine first.bind fun script inside => ?_
      exact others.bind fun scripts more => .ok (List.forall_mem_cons.mpr ⟨inside, more⟩)

theorem entryScript_yields : (entry : String × Expression) →
    (∀ name ∈ Expression.namesOfEntry entry, Knows view b b' name) →
    Yields view.AdmitsScript (entryScript b entry) (entryScript b' entry)
  | (_, e), knows => (valueOps_yields e knows).map fun _ inside => inside

end

theorem valueScript_yields {e : Expression} (knows : ∀ name ∈ e.names, Knows view b b' name) :
    Yields view.AdmitsScript (valueScript b e) (valueScript b' e) :=
  (valueOps_yields e knows).map fun _ inside => inside

theorem comparisonOps_yields (op : BinaryOperator) (f : Function) {left right : Expression}
    (first : ∀ name ∈ left.names, Knows view b b' name)
    (second : ∀ name ∈ right.names, Knows view b b' name) :
    Yields view.AdmitsOps (comparisonOps b op f left right) (comparisonOps b' op f left right) := by
  unfold comparisonOps
  split
  · refine (valueOps_yields left first).bind fun operand inside => ?_
    exact .ok (Admits.tests inside [_, _])
  · refine (valueOps_yields right second).bind fun operand inside => ?_
    exact .ok (Admits.tests inside [_, _])
  · refine (valueOps_yields left first).bind fun operand inside => ?_
    refine (valueOps_yields right second).bind fun other others => ?_
    exact .ok (Admits.tests (Admits.pairwise f inside others) [_])

theorem asked_yields {e : Expression} (knows : ∀ name ∈ e.names, Knows view b b' name) :
    Yields view.AdmitsOps (do return (← valueOps b e) ++ [isTrue])
      (do return (← valueOps b' e) ++ [isTrue]) :=
  (valueOps_yields e knows).bind fun _ inside => .ok (Admits.tests inside [_])

theorem conditionOps_yields : (e : Expression) → (∀ name ∈ e.names, Knows view b b' name) →
    Yields view.AdmitsOps (conditionOps b e) (conditionOps b' e)
  | .binary left op right, knows => by
      have first : ∀ name ∈ left.names, Knows view b b' name := fun name member =>
        knows name (List.mem_append_left _ member)
      have second : ∀ name ∈ right.names, Knows view b b' name := fun name member =>
        knows name (List.mem_append_right _ member)
      have branches (kind : StepKind) (inner : kind.isEntry = false)
          (suits : view.AdmitsKind kind) :
          Yields view.AdmitsOps
            (do
              let left ← conditionOps b left
              return [.nested kind [.of left, .of (← conditionOps b right)] inner])
            (do
              let left ← conditionOps b' left
              return [.nested kind [.of left, .of (← conditionOps b' right)] inner]) := by
        refine (conditionOps_yields left first).bind fun one inside => ?_
        refine (conditionOps_yields right second).bind fun other others => .ok ⟨?_, trivial⟩
        refine View.admitsOp_nested suits fun script member => ?_
        rcases List.mem_cons.mp member with rfl | rest
        · exact inside
        · cases List.mem_singleton.mp rest
          exact others
      have tested : Yields view.AdmitsOps
          (do
            let p ← membership op right
            return (← valueOps b left) ++ [isKnown, .is_ p])
          (do
            let p ← membership op right
            return (← valueOps b' left) ++ [isKnown, .is_ p]) := by
        refine Yields.bind (.of_eq rfl fun _ _ => trivial) fun p (_ : True) => ?_
        exact (valueOps_yields left first).bind fun _ inside => .ok (Admits.tests inside [_, _])
      cases op with
      | and => exact branches .and rfl trivial
      | or => exact branches .or rfl trivial
      | eq | ne | lt | le | gt | ge => exact comparisonOps_yields _ _ first second
      | in_ | startsWith | endsWith | contains => exact tested
      | xor | add | sub | mul | div | mod => exact asked_yields knows
  | .not operand, knows =>
      (valueOps_yields operand knows).bind fun _ inside => .ok (Admits.tests inside [_])
  | .isNull operand, knows =>
      (valueOps_yields operand knows).bind fun _ inside => .ok (Admits.tests inside [_])
  | .isNotNull operand, knows =>
      (valueOps_yields operand knows).bind fun _ inside => .ok (Admits.tests inside [_])
  | .literal v, knows => by
      cases v with
      | bool value =>
          cases value with
          | true => exact .ok ⟨View.admitsOp_bare rfl, trivial⟩
          | false => exact .ok ⟨View.admitsOp_limit _, trivial⟩
      | null => exact .ok ⟨View.admitsOp_limit _, trivial⟩
      | _ => exact asked_yields knows
  | .reference _, knows => asked_yields knows
  | .property _ _, knows => asked_yields knows
  | .list _, knows => asked_yields knows
  | .map _, knows => asked_yields knows
  | .negate _, knows => asked_yields knows
  | .call _ _ _, knows => asked_yields knows
  | .countAll, knows => asked_yields knows

theorem conditionScript_yields {e : Expression} (knows : ∀ name ∈ e.names, Knows view b b' name) :
    Yields view.AdmitsScript (conditionScript b e) (conditionScript b' e) :=
  (conditionOps_yields e knows).map fun _ inside => inside

end Cypher

end PropertyGraph
