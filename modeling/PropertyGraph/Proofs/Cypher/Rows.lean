import PropertyGraph.Client.Normalize
import PropertyGraph.Cypher.ReturnScript
import PropertyGraph.Proofs.Graph.Consistency
import PropertyGraph.Run.Exec

/-!
Rows: maps from the column names of a query, which are distinct.
-/

namespace PropertyGraph

namespace Dictionary

variable {κ α : Type} [DecidableEq κ]

theorem put_new {key : κ} {d : Dictionary κ α} (new : key ∉ d.map (·.1)) (value : α) :
    put key value d = d ++ [(key, value)] := by
  induction d with
  | nil => rfl
  | cons entry rest ih =>
      obtain ⟨k, old⟩ := entry
      rw [List.map_cons, List.mem_cons, not_or] at new
      rw [put, if_neg (Ne.symm new.1), ih new.2]
      rfl

theorem putAll_distinct {d : Dictionary κ α} {entries : List (κ × α)}
    (distinct : ((d ++ entries).map (·.1)).Nodup) : putAll d entries = d ++ entries := by
  induction entries generalizing d with
  | nil => simp [putAll]
  | cons entry rest ih =>
      have new : entry.1 ∉ d.map (·.1) := by
        rw [List.map_append, List.map_cons] at distinct
        exact fun member => (List.nodup_append.mp distinct).2.2 _ member _ List.mem_cons_self rfl
      rw [List.append_cons] at distinct
      have first : putAll d (entry :: rest) = putAll (put entry.1 entry.2 d) rest := rfl
      rw [first, put_new new, ih distinct, List.append_assoc]
      rfl

theorem ofEntries_distinct {entries : List (κ × α)} (distinct : (entries.map (·.1)).Nodup) :
    ofEntries entries = entries := putAll_distinct distinct

theorem get?_isSome {key : κ} {d : Dictionary κ α} :
    (get? key d).isSome = true ↔ key ∈ d.map (·.1) := by
  induction d with
  | nil => simp [get?]
  | cons entry rest ih =>
      obtain ⟨k, value⟩ := entry
      by_cases here : k = key
      · simp [get?, here]
      · simp [get?, here, ih, Ne.symm here]

theorem get?_eq_none {key : κ} {d : Dictionary κ α} (absent : key ∉ d.keys) : get? key d = none :=
  Option.not_isSome_iff_eq_none.mp fun found => absent (get?_isSome.mp found)

end Dictionary

namespace Cypher

theorem nodup_of_repeatedName? {seen names : List String}
    (distinct : repeatedName? seen names = none) :
    names.Nodup ∧ ∀ name ∈ names, name ∉ seen := by
  induction names generalizing seen with
  | nil => exact ⟨.nil, nofun⟩
  | cons name rest ih =>
      rw [repeatedName?] at distinct
      split at distinct
      · cases distinct
      · next new =>
          obtain ⟨others, apart⟩ := ih distinct
          refine ⟨List.nodup_cons.mpr ⟨fun member => apart name member List.mem_cons_self, others⟩,
            List.forall_mem_cons.mpr ⟨?_, fun other member seen => ?_⟩⟩
          · simpa using new
          · exact apart other member (List.mem_cons_of_mem _ seen)

/-- The entries of a row, as a map. -/
def cells (entries : List (String × Value)) : List (Value × Value) :=
  entries.map fun entry => (.string entry.1, entry.2)

theorem cells_keys (entries : List (String × Value)) :
    (cells entries).map (·.1) = (entries.map (·.1)).map .string := by
  simp [cells]

theorem record_distinct {entries : List (String × Value)}
    (distinct : (entries.map (·.1)).Nodup) : Value.record entries = .map (cells entries) := by
  have keys : ((cells entries).map (·.1)).Nodup := by
    rw [cells_keys]
    exact distinct.map fun _ _ same => Value.string.inj same
  exact congrArg Value.map (Dictionary.ofEntries_distinct keys)

theorem record_inj {first second : List (String × Value)} (distinct : (first.map (·.1)).Nodup)
    (distinct' : (second.map (·.1)).Nodup) (same : Value.record first = .record second) :
    first = second := by
  rw [record_distinct distinct, record_distinct distinct'] at same
  refine List.map_injective_iff.mpr ?_ (Value.map.inj same)
  rintro ⟨key, value⟩ ⟨other, next⟩ equal
  cases equal
  rfl

theorem get?_cells (entries : List (String × Value)) (name : String) :
    Dictionary.get? (.string name) (cells entries) = Dictionary.get? name entries := by
  induction entries with
  | nil => rfl
  | cons entry rest ih =>
      obtain ⟨key, value⟩ := entry
      have same : (Value.string key = .string name) ↔ key = name :=
        ⟨Value.string.inj, congrArg _⟩
      change (if Value.string key = .string name then some value else
        Dictionary.get? (.string name) (cells rest)) = if key = name then some value else _
      by_cases here : key = name
      · rw [if_pos here, if_pos (same.mpr here)]
      · rw [if_neg here, if_neg fun equal => here (same.mp equal), ih]

/-- The traverser stands at a row with these columns. -/
def IsRow (names : List String) (t : Traverser) : Prop :=
  ∃ entries : List (String × Value), t.object = .record entries ∧ entries.map (·.1) = names

/-- What a row has in a column. -/
def cellOf (row : Value) (name : String) : Value :=
  (row.map?.bind (Dictionary.get? (.string name))).getD Value.unknown

theorem cellOf_record {entries : List (String × Value)} (distinct : (entries.map (·.1)).Nodup)
    (name : String) : (Value.record entries).map?.bind (Dictionary.get? (.string name)) =
      Dictionary.get? name entries := by
  rw [record_distinct distinct]
  exact get?_cells entries name

namespace IsRow

variable {names : List String} {t : Traverser}

theorem cell (row : IsRow names t) (distinct : names.Nodup) {name : String}
    (member : name ∈ names) (world : World) :
    world.named? t .last name = some (cellOf t.object name) := by
  obtain ⟨entries, place, rfl⟩ := row
  obtain ⟨value, found⟩ := Option.isSome_iff_exists.mp (Dictionary.get?_isSome.mpr member)
  have here : (t.object.map?.bind (Dictionary.get? (.string name))) = some value := by
    rw [place, cellOf_record distinct, found]
  simp [World.named?, cellOf, here]

theorem column (row : IsRow names t) (distinct : names.Nodup) {name : String}
    (member : name ∈ names) (world : World) : (world.named? t .last name).isSome = true := by
  rw [row.cell distinct member world]
  rfl

end IsRow

end Cypher

namespace Normalize

open Cypher Exec

/-- The columns of a row with their values made ready. -/
def readyRow (entries : List (String × Value)) : Row :=
  entries.map fun entry => (entry.1, value entry.2)

theorem readyRow_keys (entries : List (String × Value)) :
    Dictionary.keys (readyRow entries) = entries.map (·.1) := by
  simp [Dictionary.keys, readyRow]

theorem columns_cells (entries : List (String × Value)) :
    columns (cells entries) = .ok (readyRow entries) := by
  induction entries with
  | nil => rfl
  | cons entry rest ih =>
      change (do return (entry.1, value entry.2) :: (← columns (cells rest))) = _
      rw [ih]
      rfl

theorem row_record {entries : List (String × Value)} (distinct : (entries.map (·.1)).Nodup) :
    row (.record entries) = .ok (readyRow entries) := by
  have keys : (Dictionary.keys (readyRow entries)).Nodup := by
    rwa [readyRow_keys]
  rw [record_distinct distinct, row, columns_cells]
  exact congrArg Except.ok (Dictionary.ofEntries_distinct keys)

theorem rows_ok {names : List String} (distinct : names.Nodup) {stream : Stream}
    (all : ∀ t ∈ stream, IsRow names t) : ∃ found, rows (objects stream) = .ok found ∧
      List.Forall₂ (fun t row => ∃ entries : List (String × Value), t.object = .record entries ∧
        entries.map (·.1) = names ∧ row = readyRow entries) stream found := by
  induction stream with
  | nil => exact ⟨[], rfl, .nil⟩
  | cons t rest ih =>
      obtain ⟨found, others, related⟩ := ih fun u later => all u (List.mem_cons_of_mem _ later)
      obtain ⟨entries, place, rfl⟩ := all t List.mem_cons_self
      refine ⟨readyRow entries :: found, ?_, .cons ⟨entries, place, rfl, rfl⟩ related⟩
      change (do
        let first ← row t.object
        return first :: (← rows (objects rest))) = _
      rw [place, row_record distinct, others]
      rfl

end Normalize

end PropertyGraph
