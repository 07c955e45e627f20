import Mathlib.Data.String.Basic
import PropertyGraph.Proofs.Cypher.Rows
import PropertyGraph.Proofs.Function.Arithmetic
import PropertyGraph.Value.Json

/-!
Values as JSON and back. Objects have their fields in ascending order of names, so maps come back
sorted by key and otherwise as they were, and documents without floating-point numbers come back as
they were.
-/

namespace PropertyGraph

namespace Json

/-- The names of fields ascend, and so none stands twice. -/
def Ascending {α : Type} (fields : List (String × α)) : Prop :=
  fields.Pairwise fun field other => field.1 < other.1

instance {α : Type} (fields : List (String × α)) : Decidable (Ascending fields) :=
  inferInstanceAs (Decidable (fields.Pairwise fun field other => field.1 < other.1))

variable {α : Type} {name : String} {value : α} {fields : List (String × α)}

theorem Ascending.distinct (ascending : Ascending fields) : (fields.map (·.1)).Nodup :=
  List.pairwise_map.mpr (ascending.imp ne_of_lt)

theorem Ascending.eq_of_perm {others : List (String × α)} (ascending : Ascending fields)
    (ascending' : Ascending others) (perm : fields.Perm others) : fields = others :=
  perm.eq_of_pairwise (fun _ _ _ _ below above => absurd above (lt_asymm below)) ascending
    ascending'

theorem putSorted_perm (new : name ∉ fields.map (·.1)) (value : α) :
    (putSorted name value fields).Perm ((name, value) :: fields) := by
  induction fields with
  | nil => exact .refl _
  | cons field rest ih =>
      obtain ⟨other, old⟩ := field
      rw [List.map_cons, List.mem_cons, not_or] at new
      rw [putSorted]
      split
      · exact .refl _
      · next same => exact absurd (Std.LawfulEqOrd.compare_eq_iff_eq.mp same) new.1
      · exact ((ih new.2).cons _).trans (.swap _ _ _)

theorem putSorted_ascending (new : name ∉ fields.map (·.1)) (ascending : Ascending fields)
    (value : α) : Ascending (putSorted name value fields) := by
  induction fields with
  | nil => exact List.pairwise_singleton _ _
  | cons field rest ih =>
      obtain ⟨other, old⟩ := field
      obtain ⟨below, others⟩ := List.pairwise_cons.mp ascending
      rw [List.map_cons, List.mem_cons, not_or] at new
      rw [putSorted]
      split
      · next less =>
          have first : name < other := compareOfLessAndEq_eq_lt.mp less
          exact List.pairwise_cons.mpr ⟨List.forall_mem_cons.mpr
            ⟨first, fun field member => first.trans (below field member)⟩, ascending⟩
      · next same => exact absurd (Std.LawfulEqOrd.compare_eq_iff_eq.mp same) new.1
      · next greater =>
          have less : compare other name = .lt := Std.OrientedCmp.gt_iff_lt.mp greater
          have last : other < name := compareOfLessAndEq_eq_lt.mp less
          refine List.pairwise_cons.mpr ⟨fun field member => ?_, ih new.2 others⟩
          rcases List.mem_cons.mp ((putSorted_perm new.2 value).subset member) with rfl | listed
          · exact last
          · exact below field listed

theorem foldl_putSorted (known : List (String × α))
    (distinct : ((known ++ fields).map (·.1)).Nodup) (ascending : Ascending known) :
    (fields.foldl (fun known field => putSorted field.1 field.2 known) known).Perm
        (known ++ fields) ∧
      Ascending (fields.foldl (fun known field => putSorted field.1 field.2 known) known) := by
  induction fields generalizing known with
  | nil => exact ⟨.of_eq (List.append_nil known).symm, ascending⟩
  | cons field rest ih =>
      have new : field.1 ∉ known.map (·.1) := by
        rw [List.map_append, List.map_cons] at distinct
        exact fun member => (List.nodup_append.mp distinct).2.2 _ member _ List.mem_cons_self rfl
      have moved : (putSorted field.1 field.2 known ++ rest).Perm (known ++ field :: rest) :=
        ((putSorted_perm new field.2).append_right rest).trans List.perm_middle.symm
      obtain ⟨perm, above⟩ := ih _ ((moved.map _).nodup_iff.mpr distinct)
        (putSorted_ascending new ascending field.2)
      exact ⟨perm.trans moved, above⟩

theorem sorted_eq {fields target : List (String × Json)} (distinct : (fields.map (·.1)).Nodup)
    (perm : target.Perm fields) (ascending : Ascending target) :
    sorted fields = .object target := by
  obtain ⟨same, above⟩ := foldl_putSorted [] distinct .nil
  exact congrArg Json.object (above.eq_of_perm ascending (same.trans perm.symm))

mutual

/-- A document without floating-point numbers, whose integers fit 64 bits with a sign. -/
def isExact : Json → Bool
  | .null | .bool _ | .string _ => true
  | .int i => decide (Reduce.Fits i)
  | .float _ => false
  | .array items => areExact items
  | .object fields => decide (Ascending fields) && fieldsExact fields

def areExact : List Json → Bool
  | [] => true
  | item :: rest => item.isExact && areExact rest

def fieldsExact : List (String × Json) → Bool
  | [] => true
  | field :: rest => fieldExact field && fieldsExact rest

def fieldExact : String × Json → Bool
  | (_, value) => value.isExact

end

end Json

namespace Value

mutual

/-- Nulls, truth values, integers and texts, and lists and maps of such. The keys of a map are
different texts. -/
def isData : Value → Bool
  | .null | .bool _ | .int _ | .string _ => true
  | .list items => areData items
  | .map entries => decide (entries.map (·.1)).Nodup && entriesData entries
  | .float _ | .vertex _ | .edge _ | .property _ _ _ => false

def areData : List Value → Bool
  | [] => true
  | v :: rest => v.isData && areData rest

def entriesData : List (Value × Value) → Bool
  | [] => true
  | entry :: rest => entryData entry && entriesData rest

def entryData : Value × Value → Bool
  | (key, v) => key.string?.isSome && v.isData

end

/-- Entries in ascending order of their keys. -/
def sortedByKey (entries : List (Value × Value)) : List (Value × Value) :=
  entries.mergeSort fun entry other => entry.1.text ≤ other.1.text

mutual

/-- The value with the entries of all its maps sorted by key. -/
def byKey : Value → Value
  | .list items => .list (allByKey items)
  | .map entries => .map (sortedByKey (entriesByKey entries))
  | v => v

def allByKey : List Value → List Value
  | [] => []
  | v :: rest => v.byKey :: allByKey rest

def entriesByKey : List (Value × Value) → List (Value × Value)
  | [] => []
  | entry :: rest => entryByKey entry :: entriesByKey rest

def entryByKey : Value × Value → Value × Value
  | (key, v) => (key, v.byKey)

end

theorem fieldsOfJson_eq_map (fields : List (String × Json)) :
    fieldsOfJson fields = fields.map fieldOfJson := by
  induction fields with
  | nil => rfl
  | cons field rest ih => exact congrArg (fieldOfJson field :: ·) ih

theorem fieldsOfJson_keys (fields : List (String × Json)) :
    (fieldsOfJson fields).map (·.1) = (fields.map (·.1)).map Value.string := by
  rw [fieldsOfJson_eq_map, List.map_map, List.map_map]
  exact List.map_congr_left fun (_, _) _ => rfl

theorem ofJson_object {fields : List (String × Json)} (distinct : (fields.map (·.1)).Nodup) :
    ofJson (.object fields) = .map (fieldsOfJson fields) := by
  rw [ofJson, Dictionary.ofEntries_distinct]
  rw [fieldsOfJson_keys]
  exact distinct.map fun _ _ => Value.string.inj

mutual

theorem toJson_ofJson : (j : Json) → j.isExact = true → (ofJson j).toJson = j
  | .null, _ | .bool _, _ | .string _, _ => rfl
  | .int i, exact_ => by
      obtain ⟨n, fits⟩ := Reduce.int64?_fits.mpr (of_decide_eq_true exact_)
      rw [ofJson, fits]
      exact congrArg Json.int (int64?_toInt fits)
  | .array items, exact_ => congrArg Json.array (itemsToJson_itemsOfJson items exact_)
  | .object fields, exact_ => by
      obtain ⟨sorted, inside⟩ := Bool.and_eq_true_iff.mp exact_
      have ascending := of_decide_eq_true sorted
      rw [ofJson_object ascending.distinct, toJson, entriesToJson_fieldsOfJson fields inside]
      exact Json.sorted_eq ascending.distinct (.refl _) ascending

theorem itemsToJson_itemsOfJson : (items : List Json) → Json.areExact items = true →
    itemsToJson (itemsOfJson items) = items
  | [], _ => rfl
  | item :: rest, exact_ => by
      obtain ⟨first, others⟩ := Bool.and_eq_true_iff.mp exact_
      rw [itemsOfJson, itemsToJson, toJson_ofJson item first, itemsToJson_itemsOfJson rest others]

theorem entriesToJson_fieldsOfJson : (fields : List (String × Json)) →
    Json.fieldsExact fields = true → entriesToJson (fieldsOfJson fields) = fields
  | [], _ => rfl
  | (name, j) :: rest, exact_ => by
      obtain ⟨first, others⟩ := Bool.and_eq_true_iff.mp exact_
      rw [fieldsOfJson, fieldOfJson, entriesToJson, entryToJson, toJson_ofJson j first,
        entriesToJson_fieldsOfJson rest others]
      rfl

end

theorem entriesToJson_names (entries : List (Value × Value)) :
    (entriesToJson entries).map (·.1) = (entries.map (·.1)).map text := by
  induction entries with
  | nil => rfl
  | cons entry rest ih =>
      obtain ⟨key, v⟩ := entry
      exact congrArg (key.text :: ·) ih

theorem sortedByKey_eq {entries target : List (Value × Value)} (perm : target.Perm entries)
    (ascending : target.Pairwise fun entry other => entry.1.text < other.1.text) :
    sortedByKey entries = target := by
  have sorted : (sortedByKey entries).Pairwise fun entry other =>
      decide (entry.1.text ≤ other.1.text) = true :=
    List.pairwise_mergeSort (fun _ _ _ below above => decide_eq_true
      ((of_decide_eq_true below).trans (of_decide_eq_true above)))
      (fun entry other => by simpa using le_total entry.1.text other.1.text) _
  have same : (sortedByKey entries).Perm target := (List.mergeSort_perm _ _).trans perm.symm
  have distinct : (target.map fun entry => entry.1.text).Nodup :=
    List.pairwise_map.mpr (ascending.imp ne_of_lt)
  refine same.eq_of_pairwise (fun entry other listed listed' below above => ?_) sorted
    (ascending.imp fun below => decide_eq_true below.le)
  exact List.inj_on_of_nodup_map distinct (same.subset listed) listed'
    (le_antisymm (of_decide_eq_true below) (of_decide_eq_true above))

theorem key_is_text {key : Value} (given : key.string?.isSome = true) :
    key = .string key.text := by
  cases key <;> first | rfl | cases given

theorem keys_are_texts {entries : List (Value × Value)} (data : entriesData entries = true) :
    ∀ key ∈ entries.map (·.1), key = .string key.text := by
  induction entries with
  | nil => exact nofun
  | cons entry rest ih =>
      obtain ⟨key, v⟩ := entry
      obtain ⟨first, others⟩ := Bool.and_eq_true_iff.mp data
      exact List.forall_mem_cons.mpr ⟨key_is_text (Bool.and_eq_true_iff.mp first).1, ih others⟩

theorem entriesToJson_distinct {entries : List (Value × Value)}
    (distinct : (entries.map (·.1)).Nodup) (data : entriesData entries = true) :
    ((entriesToJson entries).map (·.1)).Nodup := by
  rw [entriesToJson_names]
  refine List.Nodup.map_on (fun key listed other listed' same => ?_) distinct
  rw [keys_are_texts data key listed, keys_are_texts data other listed', same]

mutual

theorem ofJson_toJson : (v : Value) → v.isData = true → ofJson v.toJson = v.byKey
  | .null, _ | .bool _, _ | .string _, _ => rfl
  | .int i, _ => by
      rw [toJson, ofJson, Function.int64?_eq_some.mpr rfl]
      rfl
  | .list items, data => congrArg Value.list (itemsOfJson_itemsToJson items data)
  | .map entries, data => by
      obtain ⟨apart, inside⟩ := Bool.and_eq_true_iff.mp data
      have distinct := entriesToJson_distinct (of_decide_eq_true apart) inside
      obtain ⟨perm, ascending⟩ := Json.foldl_putSorted [] distinct .nil
      rw [toJson, Json.sorted, ofJson_object ascending.distinct, byKey]
      refine congrArg Value.map (sortedByKey_eq ?_ ?_).symm
      · rw [← fieldsOfJson_entriesToJson entries inside, fieldsOfJson_eq_map, fieldsOfJson_eq_map]
        exact perm.map fieldOfJson
      · rw [fieldsOfJson_eq_map, List.pairwise_map]
        exact ascending.imp fun {field other} below => by
          obtain ⟨name, j⟩ := field
          obtain ⟨name', k⟩ := other
          exact below

theorem itemsOfJson_itemsToJson : (items : List Value) → areData items = true →
    itemsOfJson (itemsToJson items) = allByKey items
  | [], _ => rfl
  | v :: rest, data => by
      obtain ⟨first, others⟩ := Bool.and_eq_true_iff.mp data
      rw [itemsToJson, itemsOfJson, ofJson_toJson v first, itemsOfJson_itemsToJson rest others]
      rfl

theorem fieldsOfJson_entriesToJson : (entries : List (Value × Value)) →
    entriesData entries = true → fieldsOfJson (entriesToJson entries) = entriesByKey entries
  | [], _ => rfl
  | (key, v) :: rest, data => by
      obtain ⟨first, others⟩ := Bool.and_eq_true_iff.mp data
      obtain ⟨text, inside⟩ := Bool.and_eq_true_iff.mp first
      rw [entriesToJson, entryToJson, fieldsOfJson, fieldOfJson, ofJson_toJson v inside,
        fieldsOfJson_entriesToJson rest others, ← key_is_text text]
      rfl

end

/-- Data come back from JSON with their maps sorted by key, and documents without floating-point
numbers come back as they were. -/
theorem json_values_come_back :
    (∀ v : Value, v.isData = true → ofJson v.toJson = v.byKey) ∧
      ∀ j : Json, j.isExact = true → (ofJson j).toJson = j :=
  ⟨ofJson_toJson, toJson_ofJson⟩

/-- Maps inside a list inside a map, with keys out of order. -/
def nestedData : Value :=
  .map [(.string "z", .list [.map [(.string "b", .int (-1)), (.string "a", .null)],
      .string nullText]),
    (.string "", .bool true)]

theorem nested_data_come_back : nestedData.isData = true ∧ nestedData.toJson.isExact = true ∧
    nestedData.byKey = .map [(.string "", .bool true),
      (.string "z", .list [.map [(.string "a", .null), (.string "b", .int (-1))],
        .string nullText])] ∧
    (ofJson nestedData.toJson).toJson = nestedData.toJson := by
  have data : nestedData.isData = true := by decide
  have exact_ : nestedData.toJson.isExact = true := by decide
  obtain ⟨values, documents⟩ := json_values_come_back
  refine ⟨data, exact_, ?_, documents _ exact_⟩
  rw [← values nestedData data]
  decide

end Value

end PropertyGraph
