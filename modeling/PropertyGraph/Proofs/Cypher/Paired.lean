import Mathlib.Data.List.Forall2
import PropertyGraph.Cypher.Query

/-!
Queries that differ in their expressions alone: expressions in the same places are related, and
everything else is the same.
-/

namespace PropertyGraph

/-- Maps with related expressions under the same keys. -/
def EntriesPaired (R : Expression → Expression → Prop) :
    List (String × Expression) → List (String × Expression) → Prop :=
  List.Forall₂ fun a b => a.1 = b.1 ∧ R a.2 b.2

variable (R : Expression → Expression → Prop)

structure NodePattern.Paired (n m : NodePattern) : Prop where
  name : n.name = m.name
  labels : n.labels = m.labels
  properties : EntriesPaired R n.properties m.properties

structure RelationshipPattern.Paired (r s : RelationshipPattern) : Prop where
  name : r.name = s.name
  types : r.types = s.types
  properties : EntriesPaired R r.properties s.properties
  direction : r.direction = s.direction
  length : r.length = s.length

def LinkPaired (a b : RelationshipPattern × NodePattern) : Prop :=
  a.1.Paired R b.1 ∧ a.2.Paired R b.2

structure PathPattern.Paired (p q : PathPattern) : Prop where
  start : p.start.Paired R q.start
  chain : List.Forall₂ (LinkPaired R) p.chain q.chain

structure MatchClause.Paired (m n : MatchClause) : Prop where
  patterns : List.Forall₂ (PathPattern.Paired R) m.patterns n.patterns
  condition : Option.Rel R m.condition n.condition

structure SetItem.Paired (a b : SetItem) : Prop where
  owner : a.owner = b.owner
  key : a.key = b.key
  value : R a.value b.value

structure ReturnItem.Paired (a b : ReturnItem) : Prop where
  expression : R a.expression b.expression
  alias_ : a.alias_ = b.alias_
  text : a.text = b.text

structure SortItem.Paired (a b : SortItem) : Prop where
  expression : R a.expression b.expression
  descending : a.descending = b.descending
  text : a.text = b.text

structure ReturnClause.Paired (r s : ReturnClause) : Prop where
  distinct : r.distinct = s.distinct
  items : List.Forall₂ (ReturnItem.Paired R) r.items s.items
  order : List.Forall₂ (SortItem.Paired R) r.order s.order
  skip : r.skip = s.skip
  limit : r.limit = s.limit

structure Query.Paired (q r : Query) : Prop where
  matches_ : List.Forall₂ (MatchClause.Paired R) q.matches_ r.matches_
  create : List.Forall₂ (PathPattern.Paired R) q.create r.create
  set : List.Forall₂ (SetItem.Paired R) q.set r.set
  delete : q.delete = r.delete
  return_ : Option.Rel (ReturnClause.Paired R) q.return_ r.return_

section Equal

theorem eq_of_forall₂ {α : Type} {S : α → α → Prop} (equal : ∀ a b, S a b → a = b)
    {first second : List α} (related : List.Forall₂ S first second) : first = second :=
  List.forall₂_eq_eq_eq ▸ related.imp equal

theorem eq_of_rel {α : Type} {S : α → α → Prop} (equal : ∀ a b, S a b → a = b)
    {first second : Option α} (related : Option.Rel S first second) : first = second := by
  cases related with
  | none => rfl
  | some same => exact congrArg some (equal _ _ same)

theorem EntriesPaired.eq {entries others : List (String × Expression)}
    (paired : EntriesPaired Eq entries others) : entries = others :=
  eq_of_forall₂ (fun _ _ same => Prod.ext same.1 same.2) paired

theorem NodePattern.Paired.eq {n m : NodePattern} (paired : n.Paired Eq m) : n = m := by
  obtain ⟨name, labels, properties⟩ := paired
  cases n
  cases m
  exact (NodePattern.mk.injEq ..).mpr ⟨name, labels, properties.eq⟩

theorem RelationshipPattern.Paired.eq {r s : RelationshipPattern} (paired : r.Paired Eq s) :
    r = s := by
  obtain ⟨name, types, properties, direction, length⟩ := paired
  cases r
  cases s
  exact (RelationshipPattern.mk.injEq ..).mpr ⟨name, types, properties.eq, direction, length⟩

theorem PathPattern.Paired.eq {p q : PathPattern} (paired : p.Paired Eq q) : p = q := by
  obtain ⟨start, chain⟩ := paired
  cases p
  cases q
  exact (PathPattern.mk.injEq ..).mpr
    ⟨start.eq, eq_of_forall₂ (fun _ _ same => Prod.ext same.1.eq same.2.eq) chain⟩

theorem MatchClause.Paired.eq {m n : MatchClause} (paired : m.Paired Eq n) : m = n := by
  obtain ⟨patterns, condition⟩ := paired
  cases m
  cases n
  exact (MatchClause.mk.injEq ..).mpr
    ⟨eq_of_forall₂ (fun _ _ same => same.eq) patterns, eq_of_rel (fun _ _ same => same) condition⟩

theorem SetItem.Paired.eq {a b : SetItem} (paired : a.Paired Eq b) : a = b := by
  obtain ⟨owner, key, value⟩ := paired
  cases a
  cases b
  exact (SetItem.mk.injEq ..).mpr ⟨owner, key, value⟩

theorem ReturnItem.Paired.eq {a b : ReturnItem} (paired : a.Paired Eq b) : a = b := by
  obtain ⟨expression, alias_, text⟩ := paired
  cases a
  cases b
  exact (ReturnItem.mk.injEq ..).mpr ⟨expression, alias_, text⟩

theorem SortItem.Paired.eq {a b : SortItem} (paired : a.Paired Eq b) : a = b := by
  obtain ⟨expression, descending, text⟩ := paired
  cases a
  cases b
  exact (SortItem.mk.injEq ..).mpr ⟨expression, descending, text⟩

theorem ReturnClause.Paired.eq {r s : ReturnClause} (paired : r.Paired Eq s) : r = s := by
  obtain ⟨distinct, items, order, skip, limit⟩ := paired
  cases r
  cases s
  exact (ReturnClause.mk.injEq ..).mpr ⟨distinct, eq_of_forall₂ (fun _ _ same => same.eq) items,
    eq_of_forall₂ (fun _ _ same => same.eq) order, skip, limit⟩

theorem Query.Paired.eq {q r : Query} (paired : q.Paired Eq r) : q = r := by
  obtain ⟨matches_, create, set, delete, return_⟩ := paired
  cases q
  cases r
  exact (Query.mk.injEq ..).mpr ⟨eq_of_forall₂ (fun _ _ same => same.eq) matches_,
    eq_of_forall₂ (fun _ _ same => same.eq) create, eq_of_forall₂ (fun _ _ same => same.eq) set,
    delete, eq_of_rel (fun _ _ same => same.eq) return_⟩

end Equal

section Same

variable {R : Expression → Expression → Prop} (each : ∀ e, R e e)

include each

theorem EntriesPaired.refl (entries : List (String × Expression)) :
    EntriesPaired R entries entries := List.forall₂_same.mpr fun entry _ => ⟨rfl, each entry.2⟩

theorem NodePattern.Paired.refl (n : NodePattern) : n.Paired R n :=
  ⟨rfl, rfl, .refl each n.properties⟩

theorem PathPattern.Paired.refl (p : PathPattern) : p.Paired R p where
  start := .refl each p.start
  chain := List.forall₂_same.mpr fun link _ =>
    ⟨⟨rfl, rfl, .refl each link.1.properties, rfl, rfl⟩, .refl each link.2⟩

theorem MatchClause.Paired.refl (m : MatchClause) : m.Paired R m where
  patterns := List.forall₂_same.mpr fun p _ => .refl each p
  condition := by
    cases m.condition with
    | none => exact .none
    | some e => exact .some (each e)

theorem ReturnClause.Paired.refl (r : ReturnClause) : r.Paired R r where
  distinct := rfl
  items := List.forall₂_same.mpr fun item _ => ⟨each item.expression, rfl, rfl⟩
  order := List.forall₂_same.mpr fun item _ => ⟨each item.expression, rfl, rfl⟩
  skip := rfl
  limit := rfl

theorem Query.Paired.refl (q : Query) : q.Paired R q where
  matches_ := List.forall₂_same.mpr fun m _ => .refl each m
  create := List.forall₂_same.mpr fun p _ => .refl each p
  set := List.forall₂_same.mpr fun item _ => ⟨rfl, rfl, each item.value⟩
  delete := rfl
  return_ := by
    cases q.return_ with
    | none => exact .none
    | some r => exact .some (.refl each r)

end Same

end PropertyGraph
