import PropertyGraph.Cypher.Compiler
import PropertyGraph.Proofs.Builder.Correspondence
import PropertyGraph.Proofs.Cypher.Readings

/-!
Expressions that differ in texts that stand for the same parameter. Whether something is a literal, a
list of literals or an aggregate does not depend on such texts, so the scripts of corresponding
expressions agree.
-/

namespace PropertyGraph

/-- The same expression but for values that correspond. -/
inductive Expression.Corresponds (before after : Properties) : Expression → Expression → Prop
  | literal {v w : Value} (same : v.Corresponds before after w) :
      Corresponds before after (.literal v) (.literal w)
  | reference (name : String) : Corresponds before after (.reference name) (.reference name)
  | property (owner key : String) :
      Corresponds before after (.property owner key) (.property owner key)
  | list {items others : List Expression}
      (same : List.Forall₂ (Corresponds before after) items others) :
      Corresponds before after (.list items) (.list others)
  | map {entries others : List (String × Expression)} (keys : entries.map (·.1) = others.map (·.1))
      (same : List.Forall₂ (Corresponds before after) (entries.map (·.2)) (others.map (·.2))) :
      Corresponds before after (.map entries) (.map others)
  | binary {left left' right right' : Expression} (op : BinaryOperator)
      (first : Corresponds before after left left')
      (second : Corresponds before after right right') :
      Corresponds before after (.binary left op right) (.binary left' op right')
  | not {e e' : Expression} (same : Corresponds before after e e') :
      Corresponds before after (.not e) (.not e')
  | negate {e e' : Expression} (same : Corresponds before after e e') :
      Corresponds before after (.negate e) (.negate e')
  | isNull {e e' : Expression} (same : Corresponds before after e e') :
      Corresponds before after (.isNull e) (.isNull e')
  | isNotNull {e e' : Expression} (same : Corresponds before after e e') :
      Corresponds before after (.isNotNull e) (.isNotNull e')
  | call (name : String) (distinct : Bool) {arguments others : List Expression}
      (same : List.Forall₂ (Corresponds before after) arguments others) :
      Corresponds before after (.call name distinct arguments) (.call name distinct others)
  | countAll : Corresponds before after .countAll .countAll

theorem entriesPaired_iff {R : Expression → Expression → Prop}
    {entries others : List (String × Expression)} : EntriesPaired R entries others ↔
      entries.map (·.1) = others.map (·.1) ∧
        List.Forall₂ R (entries.map (·.2)) (others.map (·.2)) := by
  constructor
  · intro paired
    induction paired with
    | nil => exact ⟨rfl, .nil⟩
    | cons first _ ih =>
        simp only [List.map_cons, first.1, ih.1]
        exact ⟨trivial, .cons first.2 ih.2⟩
  · intro ⟨keys, values⟩
    induction entries generalizing others with
    | nil =>
        cases others with
        | nil => exact .nil
        | cons => cases values
    | cons entry rest ih =>
        cases others with
        | nil => cases values
        | cons other others =>
            cases values with
            | cons first values =>
                obtain ⟨same, keys⟩ := List.cons.inj keys
                exact .cons ⟨same, first⟩ (ih keys values)

/-- Parameters under the same names, all texts. -/
structure TextsUnderSameNames (before after : Properties) : Prop where
  names (name : String) : Dictionary.has name before = Dictionary.has name after
  earlier (name : String) (v : Value) (given : Dictionary.get? name before = some v) :
    ∃ s, v = .string s
  later (name : String) (v : Value) (given : Dictionary.get? name after = some v) :
    ∃ s, v = .string s

variable {before after : Properties}

namespace Expression.Corresponds

theorem literal? {e e' : Expression} (same : e.Corresponds before after e') :
    Option.Rel (Value.Corresponds before after) e.literal? e'.literal? := by
  cases same with
  | literal same => exact .some same
  | _ => exact .none

theorem literals? {items others : List Expression}
    (same : List.Forall₂ (Expression.Corresponds before after) items others) :
    Option.Rel (List.Forall₂ (Value.Corresponds before after)) (Cypher.literals? items)
      (Cypher.literals? others) := by
  induction same with
  | nil => exact .some .nil
  | @cons e e' rest rest' first _ ih =>
      have one := first.literal?
      rw [Cypher.literals?, Cypher.literals?]
      generalize e.literal? = found, e'.literal? = found' at one
      generalize Cypher.literals? rest = others, Cypher.literals? rest' = others' at ih
      cases one with
      | none => exact .none
      | some value =>
          cases ih with
          | none => exact .none
          | some values => exact .some (.cons value values)

theorem int_iff (n : Int64) (e e' : Expression) (same : e.Corresponds before after e') :
    e = .literal (.int n) ↔ e' = .literal (.int n) := by
  constructor
  · rintro rfl
    cases same with
    | literal same => rw [same.eq_of_scalar rfl]
  · rintro rfl
    cases same with
    | literal same => rw [same.eq_of_scalar_later rfl]

theorem listOf {items others : List Expression}
    (same : List.Forall₂ (Expression.Corresponds before after) items others) :
    (Cypher.listOf items).Corresponds before after (Cypher.listOf others) := by
  have values := literals? same
  unfold Cypher.listOf
  generalize Cypher.literals? items = found, Cypher.literals? others = found' at values
  cases values with
  | none => exact .list same
  | some values => exact .literal (.list values)

theorem mapOf {entries others : List (String × Expression)}
    (same : EntriesPaired (Expression.Corresponds before after) entries others) :
    (Cypher.mapOf entries).Corresponds before after (Cypher.mapOf others) := by
  obtain ⟨keys, expressions⟩ := entriesPaired_iff.mp same
  have values := literals? expressions
  unfold Cypher.mapOf
  generalize Cypher.literals? (entries.map (·.2)) = found,
    Cypher.literals? (others.map (·.2)) = found' at values
  cases values with
  | none => exact .map keys expressions
  | some values =>
      rw [keys]
      exact .literal (.record _ values)

/-- The sign is taken into a number, and a number stays the same. -/
theorem negated {e e' : Expression} (same : e.Corresponds before after e') :
    (Cypher.negated e).Corresponds before after (Cypher.negated e') := by
  cases same with
  | @literal v w same =>
      cases v with
      | int n =>
          rw [same.eq_of_scalar rfl]
          exact .literal (.same _)
      | float x =>
          rw [same.eq_of_scalar rfl]
          exact .literal (.same _)
      | null =>
          rw [same.eq_of_scalar rfl]
          exact .negate (.literal (.same _))
      | bool b =>
          rw [same.eq_of_scalar rfl]
          exact .negate (.literal (.same _))
      | _ =>
          cases w with
          | int n => cases same.eq_of_scalar_later rfl
          | float x => cases same.eq_of_scalar_later rfl
          | _ => exact .negate (.literal same)
  | reference name => exact .negate (.reference name)
  | property owner key => exact .negate (.property owner key)
  | list same => exact .negate (.list same)
  | map keys same => exact .negate (.map keys same)
  | binary op first second => exact .negate (.binary op first second)
  | not same => exact .negate (.not same)
  | negate same => exact .negate (.negate same)
  | isNull same => exact .negate (.isNull same)
  | isNotNull same => exact .negate (.isNotNull same)
  | call name distinct same => exact .negate (.call name distinct same)
  | countAll => exact .negate .countAll

end Expression.Corresponds

namespace Cypher

/-- With texts under the same names, corresponding expressions are read. -/
theorem mirrors_corresponds (texts : TextsUnderSameNames before after) :
    Mirrors before after (Expression.Corresponds before after) where
  parameter name := by
    have both := texts.names name
    unfold Dictionary.has at both
    cases earlier : Dictionary.get? name before with
    | none =>
        rw [earlier] at both
        rw [Option.not_isSome_iff_eq_none.mp (Bool.eq_false_iff.mp both.symm)]
        exact .none
    | some v =>
        rw [earlier] at both
        obtain ⟨w, later⟩ := Option.isSome_iff_exists.mp both.symm
        obtain ⟨s, rfl⟩ := texts.earlier name v earlier
        obtain ⟨t, rfl⟩ := texts.later name w later
        rw [later]
        exact .some (.literal (.parameter earlier later))
  string s := .literal (.same _)
  number v _ := .literal (.same v)
  bool b := .literal (.same _)
  null := .literal (.same _)
  reference name _ := .reference name
  property owner key _ := .property owner key
  list := .listOf
  map := .mapOf
  negated := .negated
  not := .not
  isNull := .isNull
  isNotNull := .isNotNull
  binary := .binary
  call := .call
  countAll := .countAll

end Cypher

namespace Expression

mutual

/-- No parameter makes an aggregate of an expression. -/
theorem hasAggregate_eq : (e : Expression) → {e' : Expression} → e.Corresponds before after e' →
    e.hasAggregate = e'.hasAggregate
  | .literal _, _, .literal _ => rfl
  | .reference _, _, .reference _ => rfl
  | .property _ _, _, .property _ _ => rfl
  | .list items, _, .list same => anyAggregate_eq items same
  | .map entries, _, .map _ same => entriesAggregate_eq entries same
  | .binary left _ right, _, .binary _ first second => by
      rw [hasAggregate, hasAggregate, hasAggregate_eq left first, hasAggregate_eq right second]
  | .not operand, _, .not same => by rw [hasAggregate, hasAggregate, hasAggregate_eq operand same]
  | .negate operand, _, .negate same => by
      rw [hasAggregate, hasAggregate, hasAggregate_eq operand same]
  | .isNull operand, _, .isNull same => by
      rw [hasAggregate, hasAggregate, hasAggregate_eq operand same]
  | .isNotNull operand, _, .isNotNull same => by
      rw [hasAggregate, hasAggregate, hasAggregate_eq operand same]
  | .call name _ arguments, _, .call _ _ same => by
      rw [hasAggregate, hasAggregate, anyAggregate_eq arguments same]
  | .countAll, _, .countAll => rfl
termination_by structural e => e

theorem anyAggregate_eq : (items : List Expression) → {others : List Expression} →
    List.Forall₂ (Expression.Corresponds before after) items others →
    anyAggregate items = anyAggregate others
  | [], _, .nil => rfl
  | e :: rest, _, .cons first same => by
      rw [anyAggregate, anyAggregate, hasAggregate_eq e first, anyAggregate_eq rest same]
termination_by structural items => items

theorem entriesAggregate_eq : (entries : List (String × Expression)) →
    {others : List (String × Expression)} →
    List.Forall₂ (Expression.Corresponds before after) (entries.map (·.2)) (others.map (·.2)) →
    entriesAggregate entries = entriesAggregate others
  | [], [], _ => rfl
  | entry :: rest, other :: others, .cons first same => by
      rw [entriesAggregate, entriesAggregate, entryAggregate_eq entry first,
        entriesAggregate_eq rest same]
termination_by structural entries => entries

theorem entryAggregate_eq : (entry : String × Expression) → {other : String × Expression} →
    entry.2.Corresponds before after other.2 → entryAggregate entry = entryAggregate other
  | (_, e), (_, _), same => hasAggregate_eq e same
termination_by structural entry => entry

end

theorem isAggregate_eq {e e' : Expression} (same : e.Corresponds before after e') :
    e.isAggregate = e'.isAggregate := by
  cases same <;> rfl

end Expression

end PropertyGraph
