import PropertyGraph.Proofs.Client.Identity
import PropertyGraph.Proofs.Function.Results

/-!
Values that stay apart when rows are made ready. An unknown value becomes the same null as a null
that is stored, an element the same map as one with the entries of its description; values without
nulls and without such maps are told apart by what they become.
-/

namespace PropertyGraph

open Dictionary

namespace Normalize

/-- What an element becomes begins like this. -/
def startsAsElement : List (Value × Value) → Bool
  | (key, kind) :: _ =>
      key = .string "_type" && (kind = .string "node" || kind = .string "relationship")
  | [] => false

/-- Entries that are taken for no element, and that no element becomes. -/
def isPlain (entries : List (Value × Value)) : Bool :=
  !has (.string Cypher.elementKey) entries && !isElement entries && !startsAsElement entries

theorem isPlain_iff {entries : List (Value × Value)} : isPlain entries = true ↔
    .string Cypher.elementKey ∉ entries.map (·.1) ∧ isElement entries = false ∧
      startsAsElement entries = false := by
  rw [isPlain, Bool.and_eq_true, Bool.and_eq_true, Bool.not_eq_true', Bool.not_eq_true',
    Bool.not_eq_true', ← get?_isSome, has, Bool.eq_false_iff, and_assoc]

end Normalize

namespace Value

def fits (id : Nat) : Bool := id < twoTo 64

mutual

/-- Made ready, the value is told apart from all others: it has no null, no part of an element and
no map that elements could become, and ids fit an integer. -/
def isClear : Value → Bool
  | .null | .property _ _ _ => false
  | .bool _ | .int _ | .float _ | .string _ => true
  | .list items => areClear items
  | .map entries => Normalize.isPlain entries && entriesClear entries
  | .vertex v => fits v.id.toNat
  | .edge e => fits e.id.toNat && fits e.source.toNat && fits e.target.toNat
termination_by structural v => v

def areClear : List Value → Bool
  | [] => true
  | v :: rest => v.isClear && areClear rest
termination_by structural items => items

def entriesClear : List (Value × Value) → Bool
  | [] => true
  | entry :: rest => entryClear entry && entriesClear rest
termination_by structural entries => entries

def entryClear : Value × Value → Bool
  | (_, v) => v.isClear
termination_by structural entry => entry

end

end Value

namespace Normalize

theorem value_map {entries : List (Value × Value)} (clear : (Value.map entries).isClear = true) :
    value (.map entries) = .map (readyEntries entries) := by
  obtain ⟨absent, single, _⟩ := isPlain_iff.mp (Bool.and_eq_true_iff.mp clear).1
  rw [value, relationship?_eq_none absent]
  exact if_neg (Bool.eq_false_iff.mp single)

theorem ofNat_inj {m n : Nat} (first : Value.fits m = true) (second : Value.fits n = true)
    (same : Value.ofNat m = .ofNat n) : m = n := by
  have bits := congrArg Int64.toBitVec (Value.int.inj same)
  rw [Int64.toBitVec_ofNat', Int64.toBitVec_ofNat'] at bits
  have remainders := congrArg BitVec.toNat bits
  rw [BitVec.toNat_ofNat, BitVec.toNat_ofNat] at remainders
  simp only [Value.fits, decide_eq_true_eq, twoTo, Nat.pow_eq] at first second
  omega

theorem vertexMap_entries (v : VertexRef) : vertexMap v =
    .map [(.string "_type", .string "node"), (.string "_id", .ofNat v.id.toNat),
      (.string "_label", .string v.label)] :=
  Cypher.record_distinct (show ["_type", "_id", "_label"].Nodup by decide)

theorem edgeMap_entries (e : EdgeRef) : edgeMap e =
    .map [(.string "_type", .string "relationship"), (.string "_id", .ofNat e.id.toNat),
      (.string "_label", .string e.label), (.string "_inV", .ofNat e.target.toNat),
      (.string "_outV", .ofNat e.source.toNat)] :=
  Cypher.record_distinct (show ["_type", "_id", "_label", "_inV", "_outV"].Nodup by decide)

theorem vertexMap_inj {v w : VertexRef} (first : Value.fits v.id.toNat = true)
    (second : Value.fits w.id.toNat = true) (same : vertexMap v = vertexMap w) : v = w := by
  obtain ⟨⟨m⟩, label⟩ := v
  obtain ⟨⟨n⟩, other⟩ := w
  rw [vertexMap_entries, vertexMap_entries] at same
  simp only [Value.map.injEq, List.cons.injEq, Prod.mk.injEq, true_and, and_true,
    Value.string.injEq] at same
  obtain rfl : m = n := ofNat_inj first second same.1
  rw [same.2]

theorem edgeMap_inj {v w : EdgeRef} (first : (Value.edge v).isClear = true)
    (second : (Value.edge w).isClear = true) (same : edgeMap v = edgeMap w) : v = w := by
  obtain ⟨⟨m⟩, label, ⟨s⟩, ⟨t⟩⟩ := v
  obtain ⟨⟨n⟩, other, ⟨s'⟩, ⟨t'⟩⟩ := w
  simp only [Value.isClear, Bool.and_eq_true] at first second
  rw [edgeMap_entries, edgeMap_entries] at same
  simp only [Value.map.injEq, List.cons.injEq, Prod.mk.injEq, true_and, and_true,
    Value.string.injEq] at same
  obtain ⟨id, rfl, target, source⟩ := same
  obtain rfl : m = n := ofNat_inj first.1.1 second.1.1 id
  obtain rfl : s = s' := ofNat_inj first.1.2 second.1.2 source
  obtain rfl : t = t' := ofNat_inj first.2 second.2 target
  rfl

theorem vertexMap_ne_edgeMap (v : VertexRef) (e : EdgeRef) : vertexMap v ≠ edgeMap e := by
  rw [vertexMap_entries, edgeMap_entries]
  simp

/-- The atom that becomes this. -/
def raw : Value → Value
  | .null => Value.unknown
  | v => v

section Inversion

variable {v w : Value}

theorem raw_value (atom : v.isAtom = true) : raw (value v) = v := by
  cases v with
  | string s =>
      rw [value]
      split
      · next unknown => rw [raw, Value.unknown, unknown]
      · rfl
  | bool | int | float => rfl
  | _ => cases atom

theorem atom_of_value (clear : v.isClear = true) (atom : (raw (value v)).isAtom = true) :
    v.isAtom = true := by
  cases v with
  | map entries =>
      rw [value_map clear] at atom
      cases atom
  | null | property => cases clear
  | list | vertex | edge => cases atom
  | _ => rfl

theorem atom_inj (atom : v.isAtom = true) (clear : w.isClear = true) (same : value v = value w) :
    v = w := by
  have here := same ▸ raw_value atom
  rw [← here]
  exact raw_value (atom_of_value clear (here.symm ▸ atom))

theorem ready_ne {entries rest : List (Value × Value)} {kind : String}
    (named : kind = "node" ∨ kind = "relationship")
    (clear : (Value.map entries).isClear = true) :
    Value.map (readyEntries entries) ≠ .map ((.string "_type", .string kind) :: rest) := by
  intro same
  obtain ⟨plain, inside⟩ := Bool.and_eq_true_iff.mp clear
  have other := (isPlain_iff.mp plain).2.2
  cases entries with
  | nil => cases same
  | cons entry more =>
      obtain ⟨key, v⟩ := entry
      obtain ⟨first, _⟩ := List.cons.inj (Value.map.inj same)
      obtain ⟨rfl, ready⟩ := Prod.mk.inj first
      have clear := (Bool.and_eq_true_iff.mp inside).1
      have atom : v.isAtom = true := atom_of_value clear (ready ▸ rfl)
      obtain rfl : v = .string kind := by
        rw [← raw_value atom, ready]
        rfl
      rcases named with rfl | rfl <;> cases other

theorem list_of_value {ready : List Value} (clear : v.isClear = true)
    (became : value v = .list ready) : ∃ items, v = .list items ∧ values items = ready := by
  cases v with
  | list items => exact ⟨items, rfl, Value.list.inj became⟩
  | map entries =>
      rw [value_map clear] at became
      cases became
  | property => cases clear
  | string s =>
      rw [value] at became
      split at became <;> cases became
  | _ => cases became

theorem map_of_value {ready : List (Value × Value)} (clear : v.isClear = true)
    (became : value v = .map ready) :
    (∃ entries, v = .map entries ∧ readyEntries entries = ready) ∨
      (∃ x, v = .vertex x ∧ vertexMap x = .map ready) ∨
        ∃ e, v = .edge e ∧ edgeMap e = .map ready := by
  cases v with
  | map entries =>
      rw [value_map clear] at became
      exact .inl ⟨entries, rfl, Value.map.inj became⟩
  | vertex x => exact .inr (.inl ⟨x, rfl, became⟩)
  | edge e => exact .inr (.inr ⟨e, rfl, became⟩)
  | property => cases clear
  | string s =>
      rw [value] at became
      split at became <;> cases became
  | _ => cases became

end Inversion

mutual

theorem value_inj : (v w : Value) → v.isClear = true → w.isClear = true → value v = value w → v = w
  | .null, _, clear, _, _ | .property _ _ _, _, clear, _, _ => by cases clear
  | .bool _, _, _, clear', same | .int _, _, _, clear', same | .float _, _, _, clear', same
  | .string _, _, _, clear', same => atom_inj rfl clear' same
  | .list items, w, clear, clear', same => by
      obtain ⟨others, rfl, ready⟩ := list_of_value clear' same.symm
      rw [values_inj items others clear clear' ready.symm]
  | .map entries, w, clear, clear', same => by
      have became := same.symm.trans (value_map clear)
      obtain ⟨others, rfl, ready⟩ | ⟨x, rfl, ready⟩ | ⟨e, rfl, ready⟩ :=
        map_of_value clear' became
      · rw [entries_inj entries others (Bool.and_eq_true_iff.mp clear).2
          (Bool.and_eq_true_iff.mp clear').2 ready.symm]
      · exact absurd (ready.symm.trans (vertexMap_entries x)) (ready_ne (.inl rfl) clear)
      · exact absurd (ready.symm.trans (edgeMap_entries e)) (ready_ne (.inr rfl) clear)
  | .vertex x, w, clear, clear', same => by
      have became : value w = _ := same.symm.trans (vertexMap_entries x)
      obtain ⟨others, rfl, ready⟩ | ⟨y, rfl, ready⟩ | ⟨e, rfl, ready⟩ :=
        map_of_value clear' became
      · exact absurd (congrArg Value.map ready) (ready_ne (.inl rfl) clear')
      · rw [vertexMap_inj clear clear' same]
      · exact absurd ((vertexMap_entries x).trans ready.symm) (vertexMap_ne_edgeMap x e)
  | .edge e, w, clear, clear', same => by
      have became : value w = _ := same.symm.trans (edgeMap_entries e)
      obtain ⟨others, rfl, ready⟩ | ⟨y, rfl, ready⟩ | ⟨f, rfl, ready⟩ :=
        map_of_value clear' became
      · exact absurd (congrArg Value.map ready) (ready_ne (.inr rfl) clear')
      · exact absurd (ready.trans (edgeMap_entries e).symm) (vertexMap_ne_edgeMap y e)
      · rw [edgeMap_inj clear clear' same]
termination_by structural v => v

theorem values_inj : (items others : List Value) → Value.areClear items = true →
    Value.areClear others = true → values items = values others → items = others
  | [], [], _, _, _ => rfl
  | v :: rest, w :: more, clear, clear', same => by
      have clear := Bool.and_eq_true_iff.mp clear
      have clear' := Bool.and_eq_true_iff.mp clear'
      have same := List.cons.inj same
      rw [value_inj v w clear.1 clear'.1 same.1, values_inj rest more clear.2 clear'.2 same.2]
termination_by structural items => items

theorem entries_inj : (entries others : List (Value × Value)) → Value.entriesClear entries = true →
    Value.entriesClear others = true → readyEntries entries = readyEntries others →
      entries = others
  | [], [], _, _, _ => rfl
  | entry :: rest, other :: more, clear, clear', same => by
      have clear := Bool.and_eq_true_iff.mp clear
      have clear' := Bool.and_eq_true_iff.mp clear'
      have same := List.cons.inj same
      rw [entry_inj entry other clear.1 clear'.1 same.1,
        entries_inj rest more clear.2 clear'.2 same.2]
termination_by structural entries => entries

theorem entry_inj : (entry other : Value × Value) → Value.entryClear entry = true →
    Value.entryClear other = true → readyEntry entry = readyEntry other → entry = other
  | (key, v), (other, w), clear, clear', same => by
      have same := Prod.mk.inj same
      rw [same.1, value_inj v w clear clear' same.2]
termination_by structural entry => entry

end

theorem values_inj_of {items others : List Value}
    (apart : ∀ v ∈ items, ∀ w ∈ others, value v = value w → v = w)
    (same : values items = values others) : items = others := by
  induction items generalizing others with
  | nil =>
      cases others with
      | nil => rfl
      | cons w more => cases same
  | cons v rest ih =>
      cases others with
      | nil => cases same
      | cons w more =>
          have same := List.cons.inj same
          rw [apart v List.mem_cons_self w List.mem_cons_self same.1,
            ih (fun x inside y inside' => apart x (List.mem_cons_of_mem _ inside) y
              (List.mem_cons_of_mem _ inside')) same.2]

/-- Entries of an element: its id and its label, and then its properties, which are clear and under
keys of their own. -/
def isDescription (reserved : List String) : List (Value × Value) → Bool
  | (key, _) :: (other, _) :: rest =>
      key = idKey && other = labelKey && (rest.map (·.1)).Nodup &&
        reserved.all (fun key => Value.string key ∉ rest.map (·.1)) && Value.entriesClear rest
  | _ => false

theorem description_parts {reserved : List String} {entries : List (Value × Value)}
    (described : isDescription reserved entries = true) : ∃ id label rest,
      entries = (idKey, id) :: (labelKey, label) :: rest ∧ (rest.map (·.1)).Nodup ∧
        (∀ key ∈ reserved, Value.string key ∉ rest.map (·.1)) ∧ Value.entriesClear rest = true := by
  unfold isDescription at described
  split at described
  · simp only [Bool.and_eq_true, decide_eq_true_eq, List.all_eq_true] at described
    obtain ⟨⟨⟨⟨rfl, rfl⟩, distinct⟩, free⟩, clear⟩ := described
    exact ⟨_, _, _, rfl, distinct, free, clear⟩
  · cases described

theorem elementMap_description (ends : List (String × Value)) {kind : String} {id label : Value}
    {rest : List (Value × Value)}
    (distinct : (["_type", "_id", "_label"] ++ ends.map (·.1)).Nodup)
    (apart : (rest.map (·.1)).Nodup)
    (free : ∀ key ∈ ["_type", "_id", "_label"] ++ ends.map (·.1),
      Value.string key ∉ rest.map (·.1)) :
    elementMap kind ((idKey, id) :: (labelKey, label) :: rest)
        (readyEntries ((idKey, id) :: (labelKey, label) :: rest)) (Cypher.cells ends) =
      .map ([(.string "_type", .string kind), (.string "_id", id), (.string "_label", label)] ++
        Cypher.cells ends ++ readyEntries rest) := by
  have other : idKey ≠ labelKey := by decide
  have last : remove labelKey (remove idKey
      (readyEntries ((idKey, id) :: (labelKey, label) :: rest))) = readyEntries rest := by
    rw [readyEntries, readyEntry, readyEntries, readyEntry, remove, if_pos rfl, remove, if_pos rfl]
  have first : get? idKey ((idKey, id) :: (labelKey, label) :: rest) = some id := if_pos rfl
  have second : get? labelKey ((idKey, id) :: (labelKey, label) :: rest) = some label := by
    rw [get?, if_neg other, get?, if_pos rfl]
  have keys : ((Cypher.cells ([("_type", .string kind), ("_id", id), ("_label", label)] ++ ends) ++
      readyEntries rest).map (·.1)).Nodup := by
    rw [List.map_append, readyEntries_keys, Cypher.cells_keys, List.map_append]
    refine List.nodup_append.mpr ⟨distinct.map fun _ _ same => Value.string.inj same, apart, ?_⟩
    rintro _ listed key member rfl
    obtain ⟨name, reserved, rfl⟩ := List.mem_map.mp listed
    exact free name reserved member
  have all := ofEntries_distinct keys
  rw [ofEntries, putAll, List.foldl_append] at all
  rw [elementMap, first, second, last]
  exact congrArg Value.map all

theorem value_node {id label : Value} {rest : List (Value × Value)}
    (apart : (rest.map (·.1)).Nodup) (free : ∀ key ∈ nodeKeys, Value.string key ∉ rest.map (·.1)) :
    value (.map ((idKey, id) :: (labelKey, label) :: rest)) =
      .map ([(.string "_type", .string "node"), (.string "_id", id), (.string "_label", label)] ++
        readyEntries rest) := by
  have plain : Value.string Cypher.elementKey ∉
      ((idKey, id) :: (labelKey, label) :: rest).map (·.1) := by
    rw [List.map_cons, List.map_cons, List.mem_cons, List.mem_cons]
    rintro (same | same | member)
    · exact absurd same (show Value.string Cypher.elementKey ≠ idKey by decide)
    · exact absurd same (show Value.string Cypher.elementKey ≠ labelKey by decide)
    · exact free _ (by decide) member
  have element : isElement ((idKey, id) :: (labelKey, label) :: rest) = true := by
    have other : idKey ≠ labelKey := by decide
    rw [isElement, has, has, get?, if_pos rfl, get?, if_neg other, get?, if_pos rfl]
    rfl
  rw [value, relationship?_eq_none plain]
  refine (if_pos element).trans ?_
  have reserved : ∀ key ∈ ["_type", "_id", "_label"] ++ [], key ∈ nodeKeys := by decide
  exact elementMap_description [] (by decide) apart fun key member =>
    free key (reserved key member)

theorem value_relationship {id label target source : Value} {rest : List (Value × Value)}
    (apart : (rest.map (·.1)).Nodup)
    (free : ∀ key ∈ relationshipKeys, Value.string key ∉ rest.map (·.1)) :
    value (.map [(.string Cypher.elementKey, .map ((idKey, id) :: (labelKey, label) :: rest)),
        (.string Cypher.targetKey, target), (.string Cypher.sourceKey, source)]) =
      .map ([(.string "_type", .string "relationship"), (.string "_id", id),
        (.string "_label", label), (.string "_inV", target), (.string "_outV", source)] ++
          readyEntries rest) := by
  have reserved : ∀ key ∈ ["_type", "_id", "_label"] ++ ["_inV", "_outV"],
    key ∈ relationshipKeys := by decide
  exact elementMap_description [("_inV", target), ("_outV", source)]
    (show ["_type", "_id", "_label", "_inV", "_outV"].Nodup by decide) apart
    fun key member => free key (reserved key member)

end Normalize

/-- What the values of a column are. -/
inductive CellKind where
  | value
  | node
  | relationship
  | list (items : CellKind)

namespace CellKind

open Normalize

/-- The value is of this kind, and clear. -/
def admits : CellKind → Value → Bool
  | .value, v => v.isClear
  | .node, .map entries => isDescription nodeKeys entries
  | .relationship, .map [(element, .map entries), (target, _), (source, _)] =>
      element = .string Cypher.elementKey && target = .string Cypher.targetKey &&
        source = .string Cypher.sourceKey && isDescription relationshipKeys entries
  | .list kind, .list items => items.all kind.admits
  | _, _ => false

theorem node_parts {v : Value} (admitted : node.admits v = true) : ∃ id label rest,
    v = .map ((idKey, id) :: (labelKey, label) :: rest) ∧ (rest.map (·.1)).Nodup ∧
      (∀ key ∈ nodeKeys, Value.string key ∉ rest.map (·.1)) ∧ Value.entriesClear rest = true := by
  unfold admits at admitted
  split at admitted
  all_goals try contradiction
  · obtain ⟨id, label, rest, rfl, parts⟩ := description_parts admitted
    exact ⟨id, label, rest, rfl, parts⟩

theorem relationship_parts {v : Value} (admitted : relationship.admits v = true) :
    ∃ id label rest target source,
      v = .map [(.string Cypher.elementKey, .map ((idKey, id) :: (labelKey, label) :: rest)),
        (.string Cypher.targetKey, target), (.string Cypher.sourceKey, source)] ∧
      (rest.map (·.1)).Nodup ∧ (∀ key ∈ relationshipKeys, Value.string key ∉ rest.map (·.1)) ∧
        Value.entriesClear rest = true := by
  unfold admits at admitted
  split at admitted
  all_goals try contradiction
  · simp only [Bool.and_eq_true, decide_eq_true_eq] at admitted
    obtain ⟨⟨⟨rfl, rfl⟩, rfl⟩, described⟩ := admitted
    obtain ⟨id, label, rest, rfl, parts⟩ := description_parts described
    exact ⟨id, label, rest, _, _, rfl, parts⟩

theorem list_parts {kind : CellKind} {v : Value} (admitted : (list kind).admits v = true) :
    ∃ items, v = .list items ∧ ∀ item ∈ items, kind.admits item = true := by
  unfold admits at admitted
  split at admitted
  all_goals try contradiction
  · next same =>
      cases same
      exact ⟨_, rfl, List.all_eq_true.mp admitted⟩

theorem ready_inj {kind : CellKind} {v w : Value} (first : kind.admits v = true)
    (second : kind.admits w = true) (same : Normalize.value v = Normalize.value w) : v = w := by
  induction kind generalizing v w with
  | value => exact value_inj v w first second same
  | node =>
      obtain ⟨id, label, rest, rfl, apart, free, clear⟩ := node_parts first
      obtain ⟨id', label', rest', rfl, apart', free', clear'⟩ := node_parts second
      rw [value_node apart free, value_node apart' free'] at same
      simp only [List.cons_append, List.nil_append, Value.map.injEq, List.cons.injEq,
        Prod.mk.injEq, true_and] at same
      obtain ⟨rfl, rfl, ready⟩ := same
      rw [entries_inj rest rest' clear clear' ready]
  | relationship =>
      obtain ⟨id, label, rest, target, source, rfl, apart, free, clear⟩ := relationship_parts first
      obtain ⟨id', label', rest', target', source', rfl, apart', free', clear'⟩ :=
        relationship_parts second
      rw [value_relationship apart free, value_relationship apart' free'] at same
      simp only [List.cons_append, List.nil_append, Value.map.injEq, List.cons.injEq,
        Prod.mk.injEq, true_and] at same
      obtain ⟨rfl, rfl, rfl, rfl, ready⟩ := same
      rw [entries_inj rest rest' clear clear' ready]
  | list kind ih =>
      obtain ⟨items, rfl, all⟩ := list_parts first
      obtain ⟨others, rfl, all'⟩ := list_parts second
      rw [values_inj_of (fun x inside y inside' => ih (all x inside) (all' y inside'))
        (Value.list.inj same)]

theorem eq_unknown {kind : CellKind} {v : Value} (admitted : kind.admits v = true)
    (null : Normalize.value v = .null) : v = Value.unknown := by
  cases kind with
  | value => exact value_inj v Value.unknown admitted rfl null
  | node =>
      obtain ⟨id, label, rest, rfl, apart, free, _⟩ := node_parts admitted
      rw [value_node apart free] at null
      cases null
  | relationship =>
      obtain ⟨id, label, rest, target, source, rfl, apart, free, _⟩ := relationship_parts admitted
      rw [value_relationship apart free] at null
      cases null
  | list kind =>
      obtain ⟨items, rfl, _⟩ := list_parts admitted
      cases null

/-- The value is of this kind and clear, or unknown. -/
def holds (kind : CellKind) (v : Value) : Bool := v = Value.unknown || kind.admits v

theorem holds_iff {kind : CellKind} {v : Value} :
    kind.holds v = true ↔ v = Value.unknown ∨ kind.admits v = true := by
  simp [holds]

theorem holds_inj {kind : CellKind} {v w : Value} (first : kind.holds v = true)
    (second : kind.holds w = true) (same : Normalize.value v = Normalize.value w) : v = w := by
  have null : Normalize.value Value.unknown = .null := rfl
  rcases holds_iff.mp first with rfl | first
  · rcases holds_iff.mp second with rfl | second
    · rfl
    · exact (eq_unknown second (same.symm.trans null)).symm
  · rcases holds_iff.mp second with rfl | second
    · exact eq_unknown first (same.trans null)
    · exact ready_inj first second same

end CellKind

end PropertyGraph
