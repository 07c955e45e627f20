import PropertyGraph.Proofs.Client.Clear

/-!
Values that are made ready once and for all. Without the keys by which maps are taken for elements,
making a value ready leaves no unknown value and no element in it, keeps its lists and the keys of
its maps, and changes nothing when it is done again: the maps that elements become are taken for no
elements themselves.
-/

namespace PropertyGraph

open Dictionary

namespace Value

/-- Keys by which a map is taken for an element. -/
def elementMarks : List Value := [Normalize.idKey, Normalize.labelKey, .string Cypher.elementKey]

mutual

/-- No map has a key by which it could be taken for an element, and no element has the label that is
read as unknown. -/
def isUnmarked : Value → Bool
  | .list items => areUnmarked items
  | .map entries =>
      elementMarks.all (fun mark => !(entries.map (·.1)).contains mark) && entriesUnmarked entries
  | .vertex v => v.label ≠ nullText
  | .edge e => e.label ≠ nullText
  | .property _ _ v => v.isUnmarked
  | .null | .bool _ | .int _ | .float _ | .string _ => true

def areUnmarked : List Value → Bool
  | [] => true
  | v :: rest => v.isUnmarked && areUnmarked rest

def entriesUnmarked : List (Value × Value) → Bool
  | [] => true
  | entry :: rest => entryUnmarked entry && entriesUnmarked rest

def entryUnmarked : Value × Value → Bool
  | (_, v) => v.isUnmarked

end

mutual

/-- There is no text for an unknown value and no part of a graph where a value stands. -/
def isReady : Value → Bool
  | .string s => s ≠ nullText
  | .list items => areReady items
  | .map entries => entriesReady entries
  | .vertex _ | .edge _ | .property _ _ _ => false
  | .null | .bool _ | .int _ | .float _ => true

def areReady : List Value → Bool
  | [] => true
  | v :: rest => v.isReady && areReady rest

def entriesReady : List (Value × Value) → Bool
  | [] => true
  | entry :: rest => entryReady entry && entriesReady rest

def entryReady : Value × Value → Bool
  | (_, v) => v.isReady

end

/-- What a value is to become: lists item by item, maps value by value under the same keys, elements
the maps that describe them, and properties their values. -/
inductive Becomes : Value → Value → Prop
  | null : Becomes .null .null
  | unknown : Becomes unknown .null
  | bool (b : Bool) : Becomes (.bool b) (.bool b)
  | int (i : Int64) : Becomes (.int i) (.int i)
  | float (x : Binary64) : Becomes (.float x) (.float x)
  | string {s : String} : s ≠ nullText → Becomes (.string s) (.string s)
  | list {items ready : List Value} :
      List.Forall₂ Becomes items ready → Becomes (.list items) (.list ready)
  | map {entries ready : List (Value × Value)} :
      ready.map (·.1) = entries.map (·.1) →
        List.Forall₂ Becomes (entries.map (·.2)) (ready.map (·.2)) →
          Becomes (.map entries) (.map ready)
  | vertex (v : VertexRef) : Becomes (.vertex v) (.map [(.string "_type", .string "node"),
      (.string "_id", .ofNat v.id.toNat), (.string "_label", .string v.label)])
  | edge (e : EdgeRef) : Becomes (.edge e) (.map [(.string "_type", .string "relationship"),
      (.string "_id", .ofNat e.id.toNat), (.string "_label", .string e.label),
      (.string "_inV", .ofNat e.target.toNat), (.string "_outV", .ofNat e.source.toNat)])
  | property {owner : Owner} {key : String} {v ready : Value} :
      Becomes v ready → Becomes (.property owner key v) ready

theorem entries_avoid_marks {entries : List (Value × Value)}
    (unmarked : (Value.map entries).isUnmarked = true) :
    ∀ mark ∈ elementMarks, mark ∉ entries.map (·.1) := by
  intro mark listed member
  have absent := List.all_eq_true.mp (Bool.and_eq_true_iff.mp unmarked).1 mark listed
  rw [List.contains_iff_mem.mpr member] at absent
  cases absent

end Value

namespace Normalize

open Value

theorem value_unmarked {entries : List (Value × Value)}
    (absent : ∀ mark ∈ elementMarks, mark ∉ entries.map (·.1)) :
    value (.map entries) = .map (readyEntries entries) := by
  have single : isElement entries = false := by
    have untold : has idKey entries = false :=
      Bool.eq_false_iff.mpr fun told => absent idKey (by decide) (get?_isSome.mp told)
    rw [isElement, untold, Bool.false_and]
  rw [value, relationship?_eq_none (absent _ (by decide))]
  exact if_neg (Bool.eq_false_iff.mp single)

theorem vertexMap_becomes (v : VertexRef) : Becomes (.vertex v) (vertexMap v) :=
  vertexMap_entries v ▸ .vertex v

theorem edgeMap_becomes (e : EdgeRef) : Becomes (.edge e) (edgeMap e) :=
  edgeMap_entries e ▸ .edge e

mutual

theorem value_becomes : (v : Value) → v.isUnmarked = true → Becomes v (value v)
  | .null, _ => .null
  | .bool b, _ => .bool b
  | .int i, _ => .int i
  | .float x, _ => .float x
  | .string s, _ => by
      rw [value]
      split
      · next same =>
          subst same
          exact .unknown
      · next other => exact .string other
  | .list items, unmarked => .list (values_become items unmarked)
  | .map entries, unmarked => by
      rw [value_unmarked (entries_avoid_marks unmarked)]
      exact .map (readyEntries_keys entries)
        (readyEntries_become entries (Bool.and_eq_true_iff.mp unmarked).2)
  | .vertex v, _ => vertexMap_becomes v
  | .edge e, _ => edgeMap_becomes e
  | .property _ _ v, unmarked => .property (value_becomes v unmarked)

theorem values_become : (items : List Value) → areUnmarked items = true →
    List.Forall₂ Becomes items (values items)
  | [], _ => .nil
  | v :: rest, unmarked =>
      have ⟨first, others⟩ := Bool.and_eq_true_iff.mp unmarked
      .cons (value_becomes v first) (values_become rest others)

theorem readyEntries_become : (entries : List (Value × Value)) → entriesUnmarked entries = true →
    List.Forall₂ Becomes (entries.map (·.2)) ((readyEntries entries).map (·.2))
  | [], _ => .nil
  | (_, v) :: rest, unmarked =>
      have ⟨first, others⟩ := Bool.and_eq_true_iff.mp unmarked
      .cons (value_becomes v first) (readyEntries_become rest others)

end

mutual

theorem value_isReady : (v : Value) → v.isUnmarked = true → (value v).isReady = true
  | .null, _ | .bool _, _ | .int _, _ | .float _, _ => rfl
  | .string s, _ => by
      rw [value]
      split
      · rfl
      · next other => exact decide_eq_true other
  | .list items, unmarked => values_areReady items unmarked
  | .map entries, unmarked => by
      rw [value_unmarked (entries_avoid_marks unmarked)]
      exact readyEntries_areReady entries (Bool.and_eq_true_iff.mp unmarked).2
  | .vertex v, named => by
      have label : v.label ≠ nullText := of_decide_eq_true named
      have kind : "node" ≠ nullText := by decide
      rw [value, vertexMap_entries]
      simp [isReady, entriesReady, entryReady, ofNat, label, kind]
  | .edge e, named => by
      have label : e.label ≠ nullText := of_decide_eq_true named
      have kind : "relationship" ≠ nullText := by decide
      rw [value, edgeMap_entries]
      simp [isReady, entriesReady, entryReady, ofNat, label, kind]
  | .property _ _ v, unmarked => value_isReady v unmarked

theorem values_areReady : (items : List Value) → areUnmarked items = true →
    areReady (values items) = true
  | [], _ => rfl
  | v :: rest, unmarked =>
      have ⟨first, others⟩ := Bool.and_eq_true_iff.mp unmarked
      Bool.and_eq_true_iff.mpr ⟨value_isReady v first, values_areReady rest others⟩

theorem readyEntries_areReady : (entries : List (Value × Value)) →
    entriesUnmarked entries = true → entriesReady (readyEntries entries) = true
  | [], _ => rfl
  | (_, v) :: rest, unmarked =>
      have ⟨first, others⟩ := Bool.and_eq_true_iff.mp unmarked
      Bool.and_eq_true_iff.mpr ⟨value_isReady v first, readyEntries_areReady rest others⟩

end

mutual

theorem value_isUnmarked : (v : Value) → v.isUnmarked = true → (value v).isUnmarked = true
  | .null, _ | .bool _, _ | .int _, _ | .float _, _ => rfl
  | .string s, _ => by
      rw [value]
      split <;> rfl
  | .list items, unmarked => values_areUnmarked items unmarked
  | .map entries, unmarked => by
      rw [value_unmarked (entries_avoid_marks unmarked), isUnmarked, readyEntries_keys]
      obtain ⟨absent, inside⟩ := Bool.and_eq_true_iff.mp unmarked
      exact Bool.and_eq_true_iff.mpr ⟨absent, readyEntries_areUnmarked entries inside⟩
  | .vertex v, _ => by
      rw [value, vertexMap_entries]
      rfl
  | .edge e, _ => by
      rw [value, edgeMap_entries]
      rfl
  | .property _ _ v, unmarked => value_isUnmarked v unmarked

theorem values_areUnmarked : (items : List Value) → areUnmarked items = true →
    areUnmarked (values items) = true
  | [], _ => rfl
  | v :: rest, unmarked =>
      have ⟨first, others⟩ := Bool.and_eq_true_iff.mp unmarked
      Bool.and_eq_true_iff.mpr ⟨value_isUnmarked v first, values_areUnmarked rest others⟩

theorem readyEntries_areUnmarked : (entries : List (Value × Value)) →
    entriesUnmarked entries = true → entriesUnmarked (readyEntries entries) = true
  | [], _ => rfl
  | (_, v) :: rest, unmarked =>
      have ⟨first, others⟩ := Bool.and_eq_true_iff.mp unmarked
      Bool.and_eq_true_iff.mpr ⟨value_isUnmarked v first, readyEntries_areUnmarked rest others⟩

end

mutual

theorem value_of_isReady : (v : Value) → v.isUnmarked = true → v.isReady = true → value v = v
  | .null, _, _ | .bool _, _, _ | .int _, _, _ | .float _, _, _ => rfl
  | .string _, _, known => if_neg (of_decide_eq_true known)
  | .list items, unmarked, ready => congrArg Value.list (values_of_areReady items unmarked ready)
  | .map entries, unmarked, ready => by
      rw [value_unmarked (entries_avoid_marks unmarked),
        readyEntries_of_ready entries (Bool.and_eq_true_iff.mp unmarked).2 ready]

theorem values_of_areReady : (items : List Value) → areUnmarked items = true →
    areReady items = true → values items = items
  | [], _, _ => rfl
  | v :: rest, unmarked, ready => by
      obtain ⟨first, others⟩ := Bool.and_eq_true_iff.mp unmarked
      obtain ⟨here, later⟩ := Bool.and_eq_true_iff.mp ready
      rw [values, value_of_isReady v first here, values_of_areReady rest others later]

theorem readyEntries_of_ready : (entries : List (Value × Value)) →
    entriesUnmarked entries = true → entriesReady entries = true → readyEntries entries = entries
  | [], _, _ => rfl
  | (key, v) :: rest, unmarked, ready => by
      obtain ⟨first, others⟩ := Bool.and_eq_true_iff.mp unmarked
      obtain ⟨here, later⟩ := Bool.and_eq_true_iff.mp ready
      rw [readyEntries, readyEntry, value_of_isReady v first here,
        readyEntries_of_ready rest others later]

end

/-- A value without the marks of elements becomes what it is to become, in which no unknown value
and no element is left, and which stays as it is when it is made ready again. -/
theorem unmarked_values_are_settled (v : Value) (unmarked : v.isUnmarked = true) :
    Becomes v (value v) ∧ (value v).isReady = true ∧ value (value v) = value v := by
  have ready := value_isReady v unmarked
  have settled := value_of_isReady (value v) (value_isUnmarked v unmarked) ready
  exact ⟨value_becomes v unmarked, ready, settled⟩

/-- An edge in a list, a vertex and an unknown value in a map, and a property with a list. -/
def nestedElements : Value :=
  .list [.edge ⟨⟨4⟩, "knows", ⟨3⟩, ⟨5⟩⟩,
    .map [(.int 7, .vertex ⟨⟨3⟩, "person"⟩), (.string "_type", Value.unknown)],
    .property (.vertex ⟨3⟩) "tags" (.list [Value.unknown, .null, .string "node"])]

theorem nested_elements_are_settled : nestedElements.isUnmarked = true ∧
    (value nestedElements).isReady = true ∧
    value (value nestedElements) = value nestedElements := by
  have unmarked : nestedElements.isUnmarked = true := by decide
  exact ⟨unmarked, (unmarked_values_are_settled nestedElements unmarked).2⟩

end Normalize

end PropertyGraph
