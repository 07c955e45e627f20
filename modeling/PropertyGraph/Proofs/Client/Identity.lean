import PropertyGraph.Proofs.Client.Rows

/-!
Returned elements: a node is known by its kind, its id and its label, a relationship by its ends too.
These stand in one map with the properties, which are written last, so they can be relied on where no
property has one of the keys that this map or the traversal gives a meaning to.
-/

namespace PropertyGraph

namespace Dictionary

variable {κ α : Type} [DecidableEq κ] {key : κ}

theorem get?_putAll_others {entries : List (κ × α)} (others : key ∉ entries.map (·.1))
    (d : Dictionary κ α) : get? key (putAll d entries) = get? key d := by
  induction entries generalizing d with
  | nil => rfl
  | cons entry rest ih =>
      rw [List.map_cons, List.mem_cons, not_or] at others
      exact (ih others.2 _).trans ((get?_put _ _ _ _).trans (if_neg others.1))

theorem get?_ofEntries_front {front entries : List (κ × α)}
    (others : key ∉ entries.map (·.1)) :
    get? key (ofEntries (front ++ entries)) = get? key (ofEntries front) := by
  rw [ofEntries, putAll, List.foldl_append]
  exact get?_putAll_others others _

theorem mem_of_mem_remove {other : κ} {d : Dictionary κ α}
    (member : key ∈ (remove other d).map (·.1)) : key ∈ d.map (·.1) := by
  induction d with
  | nil => exact member
  | cons entry rest ih =>
      rw [remove] at member
      split at member
      · exact List.mem_cons_of_mem _ member
      · rcases List.mem_cons.mp member with here | later
        · exact List.mem_cons.mpr (.inl here)
        · exact List.mem_cons_of_mem _ (ih later)

/-- No key is one of these. -/
def Avoids (d : Dictionary κ α) (reserved : List κ) : Prop := ∀ key ∈ reserved, key ∉ d.keys

instance (d : Dictionary κ α) (reserved : List κ) : Decidable (d.Avoids reserved) :=
  inferInstanceAs (Decidable (∀ key ∈ reserved, key ∉ d.keys))

end Dictionary

open Dictionary

namespace Value

/-- What a map has under a text. -/
def under? (v : Value) (key : String) : Option Value := v.map?.bind (get? (.string key))

/-- What the description of a node is known by. -/
structure IsNode (v : VertexRef) (shown : Value) : Prop where
  kind : shown.under? "_type" = some (.string "node")
  id : shown.under? "_id" = some (.ofNat v.id.toNat)
  label : shown.under? "_label" = some (.string v.label)

/-- What the description of a relationship is known by. -/
structure IsRelationship (e : EdgeRef) (shown : Value) : Prop where
  kind : shown.under? "_type" = some (.string "relationship")
  id : shown.under? "_id" = some (.ofNat e.id.toNat)
  label : shown.under? "_label" = some (.string e.label)
  target : shown.under? "_inV" = some (.ofNat e.target.toNat)
  source : shown.under? "_outV" = some (.ofNat e.source.toNat)

end Value

namespace Normalize

/-- Keys under which a traversal tells id and label of an element. -/
def tokenKeys : List String := ["~id", "~label"]

/-- Keys of properties that are taken for something else in the description of a node. -/
def nodeKeys : List String := tokenKeys ++ ["_type", "_id", "_label", Cypher.elementKey]

/-- Keys of properties that are taken for something else in the description of a relationship. -/
def relationshipKeys : List String := tokenKeys ++ ["_type", "_id", "_label", "_inV", "_outV"]

theorem readyEntries_keys (entries : List (Value × Value)) :
    (readyEntries entries).map (·.1) = entries.map (·.1) := by
  induction entries with
  | nil => rfl
  | cons entry rest ih =>
      obtain ⟨key, v⟩ := entry
      exact congrArg (key :: ·) ih

theorem relationship?_eq_none {ends entries : List (Value × Value)}
    (absent : .string Cypher.elementKey ∉ entries.map (·.1)) : relationship? ends entries = none := by
  induction entries with
  | nil => rfl
  | cons entry rest ih =>
      obtain ⟨key, v⟩ := entry
      rw [List.map_cons, List.mem_cons, not_or] at absent
      have other : relationshipEntry? ends (key, v) = none := by
        cases v <;> exact if_neg (Ne.symm absent.1)
      rw [relationship?, other]
      exact ih absent.2

/-- What is written before the properties stays under a key that no property has. -/
theorem under?_elementMap {kind key : String} {entries extra : List (Value × Value)}
    (others : .string key ∉ entries.map (·.1)) :
    (elementMap kind entries (readyEntries entries) extra).under? key =
      get? (.string key) (ofEntries ([(.string "_type", .string kind),
        (.string "_id", (get? idKey entries).getD .null),
        (.string "_label", (get? labelKey entries).getD .null)] ++ extra)) := by
  refine get?_putAll_others (fun member => others ?_) _
  rw [← readyEntries_keys]
  exact mem_of_mem_remove (mem_of_mem_remove member)

variable {id label : Value} {properties : Properties}

/-- The entries by which a traversal tells an element. -/
def tokens (id label : Value) : List (String × Value) := [("~id", id), ("~label", label)]

/-- The entries of an element, which it has in a traversal. -/
def elementEntries (id label : Value) (properties : Properties) : List (Value × Value) :=
  ofEntries ((tokens id label ++ properties).map fun (key, v) => (.string key, v))

theorem elementEntries_absent {key : String} (other : key ∉ tokenKeys)
    (free : key ∉ properties.keys) :
    .string key ∉ (elementEntries id label properties).map (·.1) := by
  intro member
  refine absurd (get?_isSome.mpr member) ?_
  rw [elementEntries, ofEntries, get?_putAll_others]
  · exact Bool.false_ne_true
  · rw [List.map_append, List.map_append, List.mem_append]
    rintro (token | property)
    · exact other (by simpa [tokens, tokenKeys] using token)
    · exact free (by simpa [Dictionary.keys] using property)

theorem get?_elementEntries {key : String} (free : key ∉ properties.keys) :
    get? (.string key) (elementEntries id label properties) =
      get? (.string key) [(idKey, id), (labelKey, label)] := by
  rw [elementEntries, List.map_append, get?_ofEntries_front]
  · rfl
  · exact fun member => free (by simpa [Dictionary.keys] using member)

theorem node_kept {v : VertexRef} (free : properties.Avoids nodeKeys) :
    Value.IsNode v (value (.map (elementEntries (.ofNat v.id.toNat) (.string v.label)
      properties))) := by
  generalize entry : elementEntries (.ofNat v.id.toNat) (.string v.label) properties = entries
  have absent (key : String) (reserved : key ∈ nodeKeys) (other : key ∉ tokenKeys) :
      .string key ∉ entries.map (·.1) := entry ▸ elementEntries_absent other (free key reserved)
  have told (key : String) (reserved : key ∈ nodeKeys) : get? (.string key) entries =
      get? (.string key) [(idKey, .ofNat v.id.toNat), (labelKey, .string v.label)] :=
    entry ▸ get?_elementEntries (free key reserved)
  have id := told "~id" (by decide)
  have label := told "~label" (by decide)
  have element : isElement entries = true := by
    simp only [isElement, has, idKey, labelKey] at id label ⊢
    rw [id, label]
    rfl
  have shown : value (.map entries) = elementMap "node" entries (readyEntries entries) [] := by
    rw [value, relationship?_eq_none (absent Cypher.elementKey (by decide) (by decide))]
    exact if_pos element
  rw [shown]
  refine ⟨?_, ?_, ?_⟩
  all_goals rw [under?_elementMap (absent _ (by decide) (by decide)), idKey, labelKey, id, label]
  all_goals rfl

theorem record_projection (element target source : Value) :
    Value.record [(Cypher.elementKey, element), (Cypher.targetKey, target),
      (Cypher.sourceKey, source)] = .map [(.string Cypher.elementKey, element),
        (.string Cypher.targetKey, target), (.string Cypher.sourceKey, source)] :=
  Cypher.record_distinct
    (show [Cypher.elementKey, Cypher.targetKey, Cypher.sourceKey].Nodup by decide)

theorem relationship_kept {e : EdgeRef} (free : properties.Avoids relationshipKeys) :
    Value.IsRelationship e (value (.record [
      (Cypher.elementKey, .map (elementEntries (.ofNat e.id.toNat) (.string e.label) properties)),
      (Cypher.targetKey, .ofNat e.target.toNat), (Cypher.sourceKey, .ofNat e.source.toNat)])) := by
  generalize entry : elementEntries (.ofNat e.id.toNat) (.string e.label) properties = entries
  have absent (key : String) (reserved : key ∈ relationshipKeys) (other : key ∉ tokenKeys) :
      .string key ∉ entries.map (·.1) := entry ▸ elementEntries_absent other (free key reserved)
  have told (key : String) (reserved : key ∈ relationshipKeys) : get? (.string key) entries =
      get? (.string key) [(idKey, .ofNat e.id.toNat), (labelKey, .string e.label)] :=
    entry ▸ get?_elementEntries (free key reserved)
  have id := told "~id" (by decide)
  have label := told "~label" (by decide)
  have shown : value (.record [(Cypher.elementKey, .map entries),
      (Cypher.targetKey, .ofNat e.target.toNat), (Cypher.sourceKey, .ofNat e.source.toNat)]) =
      elementMap "relationship" entries (readyEntries entries)
        [(.string "_inV", .ofNat e.target.toNat), (.string "_outV", .ofNat e.source.toNat)] := by
    rw [record_projection]
    rfl
  rw [shown]
  refine ⟨?_, ?_, ?_, ?_, ?_⟩
  all_goals rw [under?_elementMap (absent _ (by decide) (by decide)), idKey, labelKey, id, label]
  all_goals rfl

end Normalize

namespace Graph

open Normalize

variable {g : Graph}

theorem describe_eq_ok {v described : Value} (found : g.describe v = .ok described) :
    ∃ id label properties, v.elementId = .ok id ∧ v.elementLabel = .ok label ∧
      g.propertiesOf v = .ok properties ∧ described = .map (elementEntries id label properties) := by
  obtain ⟨id, first, found⟩ := bind_eq_ok.mp found
  obtain ⟨label, second, found⟩ := bind_eq_ok.mp found
  obtain ⟨properties, third, same⟩ := bind_eq_ok.mp found
  exact ⟨id, label, properties, first, second, third, (Except.ok.inj same).symm⟩

theorem endOf_eq_ok {kind : StepKind} {choose : EdgeRef → VertexId} {e : EdgeRef} {found : Value}
    (reached : g.endOf kind choose (.edge e) >>= Value.elementId = .ok found) :
    found = .ofNat (choose e).toNat := by
  obtain ⟨v, reached, same⟩ := bind_eq_ok.mp reached
  rw [endOf] at reached
  split at reached
  · next vertex stored =>
      cases reached
      have reads : vertex.id = choose e := eq_of_beq (List.find?_some stored :)
      rw [← reads]
      exact (Except.ok.inj same).symm
  · cases reached

theorem describeEdge_eq_ok {e : EdgeRef} {described : Value}
    (found : g.describeEdge (.edge e) = .ok described) :
    ∃ properties, g.propertiesOf (.edge e) = .ok properties ∧ described = .record [
      (Cypher.elementKey, .map (elementEntries (.ofNat e.id.toNat) (.string e.label) properties)),
      (Cypher.targetKey, .ofNat e.target.toNat), (Cypher.sourceKey, .ofNat e.source.toNat)] := by
  obtain ⟨element, first, found⟩ := bind_eq_ok.mp found
  obtain ⟨target, second, found⟩ := bind_eq_ok.mp found
  obtain ⟨source, third, same⟩ := bind_eq_ok.mp found
  obtain ⟨id, label, properties, ⟨⟩, ⟨⟩, known, rfl⟩ := describe_eq_ok first
  cases endOf_eq_ok second
  cases endOf_eq_ok third
  exact ⟨properties, known, (Except.ok.inj same).symm⟩

end Graph

namespace ReturnClause

open Cypher

/-- What is shown for a name that stands for an element tells this element, if no property of it has
a key that means something else there. -/
def Keeps (b : Bindings) (g : Graph) (t : Traverser) (name : String) (shown : Value) : Prop :=
  match Dictionary.get? name b with
  | some .node => ∀ v, (t.labelled name).getLast? = some (.vertex v) →
      ∃ properties, g.propertiesOf (.vertex v) = .ok properties ∧
        (properties.Avoids Normalize.nodeKeys → Value.IsNode v shown)
  | some .relationship => ∀ e, (t.labelled name).getLast? = some (.edge e) →
      ∃ properties, g.propertiesOf (.edge e) = .ok properties ∧
        (properties.Avoids Normalize.relationshipKeys → Value.IsRelationship e shown)
  | _ => True

theorem keeps_of_columnValue {b : Bindings} {g : Graph} {t : Traverser} {name : String} {v : Value}
    (found : columnValue b (.onPath b g t) (.reference name) = .ok v) :
    Keeps b g t name (Normalize.value v) := by
  have here (kind : NameKind) (declared : Dictionary.get? name b = some kind)
      (single : kind ≠ .relationships) :
      (Environment.onPath b g t).value? name = (t.labelled name).getLast? := by
    cases kind <;> simp_all [Environment.onPath]
  unfold Keeps
  unfold columnValue at found
  dsimp only at found
  split
  · next declared =>
      intro vertex bound
      rw [here _ declared (by decide), bound, declared] at found
      obtain ⟨id, label, properties, ⟨⟩, ⟨⟩, known, rfl⟩ := Graph.describe_eq_ok found
      exact ⟨properties, known, Normalize.node_kept⟩
  · next declared =>
      intro edge bound
      rw [here _ declared (by decide), bound, declared] at found
      obtain ⟨properties, known, rfl⟩ := Graph.describeEdge_eq_ok found
      exact ⟨properties, known, Normalize.relationship_kept⟩
  · trivial

/-- A row tells, under the columns of the items, the elements that names among these stand for. -/
def TellsElements (r : ReturnClause) (b : Bindings) (g : Graph) (t : Traverser) (row : Row) :
    Prop :=
  List.Forall₂ (fun item (cell : String × Value) => cell.1 = item.column ∧
    ∀ name, item.expression = .reference name → Keeps b g t name cell.2) r.items row

theorem Tells.elements {r : ReturnClause} {b : Bindings} {g : Graph} {t : Traverser} {row : Row}
    (tells : r.Tells b g t row) : r.TellsElements b g t row := by
  refine List.Forall₂.imp (fun item cell holds => ⟨holds.1, ?_⟩) tells
  obtain ⟨_, v, found, shown⟩ := holds
  intro name shape
  rw [shape] at found
  exact shown ▸ keeps_of_columnValue found

end ReturnClause

/-- Each row of a clause without aggregates tells the elements that the names in its columns stand
for: a node by its kind, its id and its label, a relationship by its ends too. Properties can have
any values, and any keys but the ones that mean something else in a row. A plain clause has such a
row for every match. -/
theorem returned_elements_keep_identity (text : String) (parameters : Properties)
    {s : Statement} {l : Live} (parsed : Statement.parse text parameters = .ok s)
    (built : s.query.buildOn Live.onGraph = .ok l) {r : ReturnClause}
    (clause : s.query.return_ = some r)
    (free : ∀ item ∈ r.items, item.expression.hasAggregate = false) {client after : Client}
    {rows : List Row} (ran : client.run l = (.rows rows, after)) :
    ∃ b stream world arranged, s.query.Reached client.engine client.store b stream world ∧
      arranged.Subperm stream ∧ (r.isPlain = true → arranged.Perm stream) ∧
        List.Forall₂ (r.TellsElements b world.store.graph) arranged rows := by
  by_cases plain : r.isPlain = true
  · obtain ⟨b, stream, world, arranged, reached, perm, _, tells⟩ :=
      ReturnClause.plain_rows_tell parsed built ran clause plain
    exact ⟨b, stream, world, arranged, reached, perm.subperm, fun _ => perm,
      tells.imp fun _ _ => ReturnClause.Tells.elements⟩
  · obtain ⟨b, stream, world, arranged, reached, among, tells⟩ :=
      ReturnClause.rows_tell parsed built ran clause free
    exact ⟨b, stream, world, arranged, reached, among, (absurd · plain),
      tells.imp fun _ _ => ReturnClause.Tells.elements⟩

/-- Both ends of relationships in one direction, and the relationships: different ones, and not all
of them. -/
def describedElements : String :=
  "MATCH (a)-[e:k]->(b) RETURN DISTINCT b, e, a.n AS n ORDER BY n SKIP 0 LIMIT 5"

theorem edge_and_end_keep_identity : ∃ (s : Statement) (l : Live) (r : ReturnClause)
    (client after : Client) (rows : List Row), Statement.parse describedElements [] = .ok s ∧
      s.query.buildOn Live.onGraph = .ok l ∧ s.query.return_ = some r ∧ r.distinct = true ∧
      (∀ item ∈ r.items, item.expression.hasAggregate = false) ∧
      client.run l = (.rows rows, after) ∧ rows.length = 1 ∧ ∃ b stream world arranged,
        s.query.Reached client.engine client.store b stream world ∧ arranged.Subperm stream ∧
          (r.isPlain = true → arranged.Perm stream) ∧
          List.Forall₂ (r.TellsElements b world.store.graph) arranged rows := by
  let client : Client := ⟨⟨.oneEdge, .zero⟩, .standard 10, .groovy⟩
  let once (r : ReturnClause) : Bool :=
    r.distinct && r.items.all fun item => !item.expression.hasAggregate
  have answers : client.answers describedElements once 1 = true := by decide +kernel
  obtain ⟨s, l, r, rows, parsed, built, clause, sort, ran, one⟩ := Client.run_of_answers answers
  have distinct : r.distinct = true := (Bool.and_eq_true_iff.mp sort).1
  have free (item : ReturnItem) (listed : item ∈ r.items) :
      item.expression.hasAggregate = false :=
    (Bool.not_eq_true' _).mp (List.all_eq_true.mp (Bool.and_eq_true_iff.mp sort).2 item listed)
  exact ⟨s, l, r, client, _, rows, parsed, built, clause, distinct, free, ran, one,
    returned_elements_keep_identity describedElements [] parsed built clause free ran⟩

def Client.describing (key : String) (v : Value) : Client :=
  ⟨⟨(Graph.empty.addVertex "p" [(key, v)]).2, .zero⟩, .standard 10, .groovy⟩

/-- Properties take the place of the kind and of the id, and one of them that of the whole node. -/
theorem properties_hide_identity :
    (Client.describing "_type" (.string "x")).rows? "MATCH (n) RETURN n" =
        some [[("n", .record [("_type", .string "x"), ("_id", .int 1), ("_label", .string "p")])]] ∧
      (Client.describing "~id" (.int 7)).rows? "MATCH (n) RETURN n" =
        some [[("n", .record [("_type", .string "node"), ("_id", .int 7),
          ("_label", .string "p")])]] ∧
      (Client.describing Cypher.elementKey (.int 5)).rows? "MATCH (n) RETURN n" =
        some [[("n", .int 5)]] := by
  decide +kernel

end PropertyGraph
