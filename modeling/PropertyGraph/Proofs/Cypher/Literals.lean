import PropertyGraph.Proofs.Builder.Material
import PropertyGraph.Proofs.Client.Parameters
import PropertyGraph.Proofs.Cypher.Condition
import PropertyGraph.Proofs.Cypher.Precedence
import PropertyGraph.Proofs.Cypher.ScriptMaterial

/-!
The literals of expressions. Those of a query that was read are numbers, texts, truth values, nulls
and parameters, and lists and maps of such; so they are proper if the parameters are: elements are
numbered with 64 bits, and no key stands twice in a map.
-/

namespace PropertyGraph

/-- Numbers of elements have 64 bits, and the keys of a map differ. -/
def Content.isProper : Content → Bool
  | .id n => decide (n < twoTo 64)
  | .keys all => decide all.Nodup
  | .float _ | .text _ | .length _ => true

def Value.Proper (v : Value) : Prop := ∀ c ∈ v.contents, c.isProper = true

def Program.Proper (p : Program) : Prop := ∀ c ∈ p.contents, c.isProper = true

/-- Any steps, on proper values. -/
def Material.proper : Material := ⟨True, fun c => c.isProper = true, fun _ => rfl, fun _ => rfl⟩

namespace Value

@[simp]
theorem null_proper : Value.null.Proper := nofun

@[simp]
theorem bool_proper (b : Bool) : (Value.bool b).Proper := Material.takes_bool (m := .proper) b

@[simp]
theorem int_proper (i : Int64) : (Value.int i).Proper := Material.takes_int (m := .proper) i

@[simp]
theorem float_proper (x : Binary64) : (Value.float x).Proper := by
  simp [Proper, contents, Content.isProper]

@[simp]
theorem string_proper (s : String) : (Value.string s).Proper :=
  Material.takes_string (m := .proper) s

@[simp]
theorem list_proper {items : List Value} : (list items).Proper ↔ ∀ item ∈ items, item.Proper :=
  Material.takes_list (m := .proper)

theorem entriesContents_proper {entries : List (Value × Value)} :
    (∀ c ∈ entriesContents entries, c.isProper = true) ↔
      ∀ entry ∈ entries, entry.1.Proper ∧ entry.2.Proper := by
  induction entries with
  | nil => simp [entriesContents]
  | cons entry rest ih =>
      rw [entriesContents, List.forall_mem_append, ih, List.forall_mem_cons, entryContents,
        List.forall_mem_append]
      rfl

theorem map_proper {entries : List (Value × Value)} : (map entries).Proper ↔
    (entries.map (·.1)).Nodup ∧ ∀ entry ∈ entries, entry.1.Proper ∧ entry.2.Proper := by
  rw [Proper, contents, List.forall_mem_cons, List.forall_mem_cons, entriesContents_proper]
  simp [Content.isProper]

end Value

end PropertyGraph

/-! ## Literals -/

namespace PropertyGraph

open Cypher

namespace Expression

variable {P : Value → Prop} {e : Expression} {items : List Expression}

theorem literals_of_found {values : List Value} (found : literals? items = some values)
    (all : ∀ e ∈ items, e.Literals P) : ∀ v ∈ values, P v := by
  rw [literals?_eq_some] at found
  subst found
  intro v member
  exact (all _ (List.mem_map_of_mem member)).of_literal? rfl

end Expression

theorem Value.record_proper {entries : List (String × Value)}
    (all : ∀ entry ∈ entries, entry.2.Proper) : (Value.record entries).Proper := by
  obtain ⟨distinct, values⟩ := ofEntries_spec all
  rw [record_eq, map_proper, cells_keys]
  refine ⟨distinct.map fun _ _ same => Value.string.inj same, ?_⟩
  exact List.forall_mem_map.mpr fun entry member => ⟨string_proper _, values entry member⟩

theorem Value.number_proper {v : Value} (numeric : v.isNumber = true) : v.Proper := by
  cases v with
  | int i => exact int_proper i
  | float x => exact float_proper x
  | _ => cases numeric

namespace Expression

variable {e : Expression}

theorem listOf_proper {items : List Expression} (all : ∀ e ∈ items, e.Literals Value.Proper) :
    (listOf items).Literals Value.Proper := by
  unfold Cypher.listOf
  split
  · next values found => exact .literal (Value.list_proper.mpr (literals_of_found found all))
  · exact .list all

theorem mapOf_proper {entries : List (String × Expression)}
    (all : ∀ entry ∈ entries, entry.2.Literals Value.Proper) :
    (mapOf entries).Literals Value.Proper := by
  unfold Cypher.mapOf
  split
  · next values found =>
      have proper := literals_of_found found (List.forall_mem_map.mpr all)
      exact .literal (Value.record_proper fun entry member =>
        proper _ (List.of_mem_zip member).2)
  · exact .map all

theorem negated_proper (all : e.Literals Value.Proper) : (negated e).Literals Value.Proper := by
  unfold Cypher.negated
  split
  · exact .literal (Value.int_proper _)
  · exact .literal (Value.float_proper _)
  · exact .negate all

theorem mirrors_proper {parameters : Properties}
    (proper : ∀ v ∈ Dictionary.values parameters, v.Proper) :
    Mirrors parameters parameters (SameWith Value.Proper) where
  parameter name := by
    cases found : Dictionary.get? name parameters with
    | none => exact .none
    | some v => exact .some ⟨rfl, .literal (proper _ (Dictionary.get?_mem found))⟩
  string s := ⟨rfl, .literal (Value.string_proper s)⟩
  number _ numeric := ⟨rfl, .literal (Value.number_proper numeric)⟩
  bool b := ⟨rfl, .literal (Value.bool_proper b)⟩
  null := ⟨rfl, .literal Value.null_proper⟩
  reference name _ := ⟨rfl, .reference name⟩
  property owner key _ := ⟨rfl, .property owner key⟩
  list related := ⟨congrArg listOf (eq_of_forall₂ (fun _ _ same => same.1) related),
    listOf_proper (forall_left related fun _ _ same => same.2)⟩
  map related := ⟨congrArg mapOf (EntriesPaired.eq (related.imp fun _ _ same => ⟨same.1, same.2.1⟩)),
    mapOf_proper (forall_left related fun _ _ same => same.2.2)⟩
  negated related := ⟨congrArg _ related.1, negated_proper related.2⟩
  not related := ⟨congrArg _ related.1, .not related.2⟩
  isNull related := ⟨congrArg _ related.1, .isNull related.2⟩
  isNotNull related := ⟨congrArg _ related.1, .isNotNull related.2⟩
  binary op left right := ⟨by rw [left.1, right.1], .binary op left.2 right.2⟩
  call name distinct _ _ related :=
    ⟨congrArg _ (eq_of_forall₂ (fun _ _ same => same.1) related),
      .call name distinct (forall_left related fun _ _ same => same.2)⟩
  countAll := ⟨rfl, .countAll⟩

end Expression

theorem Statement.parse_proper {text : String} {parameters : Properties} {s : Statement}
    (parsed : Statement.parse text parameters = .ok s)
    (proper : ∀ v ∈ Dictionary.values parameters, v.Proper) : s.query.Literals Value.Proper := by
  have same (n : Int64) (e e' : Expression) (alike : e.SameWith Value.Proper e') :
      e = .literal (.int n) ↔ e' = .literal (.int n) := by rw [alike.1]
  have read := Statement.parse_twin
    (statement_twin (Expression.mirrors_proper proper) same) text
  rw [parsed] at read
  cases read with
  | some both => exact both.2

end PropertyGraph
