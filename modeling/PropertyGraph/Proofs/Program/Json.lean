import PropertyGraph.Program.Json
import PropertyGraph.Proofs.Cypher.Rows
import PropertyGraph.Proofs.Json.Reading
import PropertyGraph.Proofs.Program.Contents
import PropertyGraph.Proofs.Program.Floats

/-!
The JSON form of a program reads back, if each of its floating-point numbers does and its containers
nest no deeper than a reader goes. For each kind of part there is one statement: its reader, given at
least the depth of the document, takes the document that the part is written as.
-/

namespace PropertyGraph

open Json Json.Reader

namespace Content

/-- What reads back from JSON: of floating-point numbers those whose text does. -/
def survivesJson : Content → Bool
  | .float x => x.readsBack
  | other => other.fitsJson

theorem survives_of_fits {c : Content} (fits : c.fitsJson = true) : c.survivesJson = true := by
  cases c with
  | float x => cases fits
  | _ => exact fits

end Content

theorem member_takes {α : Type} [Family α] [DecidableEq α] [LawfulFamily α] (a : α) (depth : Nat) :
    Takes (member α depth) (Family.toJson a) a := by
  have known : Family.ofTag? (Family.tag a) = some a := Family.ofTag?_tag a
  cases depth with
  | zero =>
      refine ⟨⟨'"', _, rfl, by decide, by decide⟩, fun rest _ => ?_⟩
      rw [Family.toJson, chars, stringChars_append, member, run_next (peek_run (by decide) _)]
      refine (run_next (advance_run _ _)).trans ((run_next (string_run _ rest)).trans ?_)
      rw [known]
      rfl
  | succ depth => exact variant_bare known

theorem identity_takes {n : Nat} (fits : n < twoTo 64) : Takes identity (.int n) n :=
  (expectInt_takes (by omega) (by omega) (by omega) (by omega)).bind fun _ => rfl

theorem vertexId_takes {id : VertexId} (fits : id.toNat < twoTo 64) :
    Takes vertexId (.int id.toNat) id :=
  (identity_takes fits).map VertexId.mk

theorem edgeId_takes {id : EdgeId} (fits : id.toNat < twoTo 64) : Takes edgeId (.int id.toNat) id :=
  (identity_takes fits).map EdgeId.mk

theorem vertexRef_takes {v : VertexRef} (fits : ∀ c ∈ v.contents, c.survivesJson = true) :
    Takes vertexRef v.toTaggedJson v := by
  simp only [VertexRef.contents, List.forall_mem_cons, Content.survivesJson, Content.fitsJson,
    decide_eq_true_eq] at fits
  have id : TakesField vertexRef.vertexField ("id", .int v.id.toNat) (none, none)
      (some v.id, none) := takesField rfl fun rest ends => by
    simp only [String.reduceBEq, ↓reduceIte]
    exact (run_next (field_run (vertexId_takes fits.1) ends)).trans rfl
  have label : TakesField vertexRef.vertexField ("label", .string v.label) (some v.id, none)
      (some v.id, some v.label) := takesField rfl fun rest ends => by
    simp only [String.reduceBEq, ↓reduceIte, Bool.false_eq_true]
    exact (run_next (field_run (expectString_takes v.label) ends)).trans rfl
  refine expectStructure_takes fun rest => ?_
  exact (run_next (members_run (.cons id (.cons label (.nil _))) rest)).trans rfl

theorem edgeRef_takes {e : EdgeRef} (fits : ∀ c ∈ e.contents, c.survivesJson = true) :
    Takes edgeRef e.toTaggedJson e := by
  simp only [EdgeRef.contents, List.forall_mem_cons, Content.survivesJson, Content.fitsJson,
    decide_eq_true_eq] at fits
  obtain ⟨idFits, -, sourceFits, targetFits, -⟩ := fits
  have id : TakesField edgeField ("id", .int e.id.toNat) ⟨none, none, none, none⟩
      ⟨some e.id, none, none, none⟩ := takesField rfl fun rest ends => by
    simp only [String.reduceBEq, ↓reduceIte]
    exact (run_next (field_run (edgeId_takes idFits) ends)).trans rfl
  have label : TakesField edgeField ("label", .string e.label) ⟨some e.id, none, none, none⟩
      ⟨some e.id, some e.label, none, none⟩ := takesField rfl fun rest ends => by
    simp only [String.reduceBEq, ↓reduceIte, Bool.false_eq_true]
    exact (run_next (field_run (expectString_takes e.label) ends)).trans rfl
  have source : TakesField edgeField ("out_v", .int e.source.toNat)
      ⟨some e.id, some e.label, none, none⟩ ⟨some e.id, some e.label, some e.source, none⟩ :=
    takesField rfl fun rest ends => by
      simp only [String.reduceBEq, ↓reduceIte, Bool.false_eq_true]
      exact (run_next (field_run (vertexId_takes sourceFits) ends)).trans rfl
  have target : TakesField edgeField ("in_v", .int e.target.toNat)
      ⟨some e.id, some e.label, some e.source, none⟩
      ⟨some e.id, some e.label, some e.source, some e.target⟩ :=
    takesField rfl fun rest ends => by
      simp only [String.reduceBEq, ↓reduceIte, Bool.false_eq_true]
      exact (run_next (field_run (vertexId_takes targetFits) ends)).trans rfl
  refine expectStructure_takes fun rest => ?_
  exact (run_next (members_run
    (.cons id (.cons label (.cons source (.cons target (.nil _))))) rest)).trans rfl

theorem owner_takes {o : Owner} (fits : ∀ c ∈ o.contents, c.survivesJson = true) (depth : Nat) :
    Takes (owner (depth + 1)) o.toTaggedJson o := by
  cases o with
  | vertex id =>
      refine variant_takes rfl ?_
      simp only [String.reduceBEq, ↓reduceIte]
      exact (vertexId_takes (of_decide_eq_true (fits _ (List.mem_singleton_self _)))).map _
  | edge id =>
      refine variant_takes rfl ?_
      simp only [String.reduceBEq, ↓reduceIte, Bool.false_eq_true]
      exact (edgeId_takes (of_decide_eq_true (fits _ (List.mem_singleton_self _)))).map _

/-! ### Values -/

@[simp]
theorem tagged_depth (tag : String) (content : Json) :
    (tagged tag content).depth = content.depth + 1 := by
  simp [tagged, Json.depth, fieldsDepth, fieldDepth]

theorem int64_takes (i : Int64) : Takes int64 (.int i.toInt) i := by
  have low : -(twoTo 63 : Int) ≤ i.toInt := i.le_toInt
  have high : i.toInt < twoTo 63 := i.toInt_lt
  have most : i.toInt < twoTo 64 := high.trans (by decide)
  refine (expectInt_takes low (Int.le_sub_one_of_lt high) low most).bind fun rest => ?_
  rw [Int64.ofInt_toInt]
  rfl

theorem property_takes {o : Owner} {key : String} {value : Value} {depth : Nat}
    (fits : ∀ c ∈ o.contents, c.survivesJson = true)
    (inside : Takes (taggedValue (depth + 1)) value.toTaggedJson value) :
    Takes (propertyRef (owner (depth + 1)) (taggedValue (depth + 1)))
      (.object [("owner", o.toTaggedJson), ("key", .string key), ("value", value.toTaggedJson)])
      (.property o key value) := by
  have first : TakesField (propertyField (owner (depth + 1)) (taggedValue (depth + 1)))
      ("owner", o.toTaggedJson) ⟨none, none, none⟩ ⟨some o, none, none⟩ :=
    takesField rfl fun rest ends => by
      simp only [String.reduceBEq, ↓reduceIte]
      exact (run_next (field_run (owner_takes fits depth) ends)).trans rfl
  have second : TakesField (propertyField (owner (depth + 1)) (taggedValue (depth + 1)))
      ("key", .string key) ⟨some o, none, none⟩ ⟨some o, some key, none⟩ :=
    takesField rfl fun rest ends => by
      simp only [String.reduceBEq, ↓reduceIte, Bool.false_eq_true]
      exact (run_next (field_run (expectString_takes key) ends)).trans rfl
  have third : TakesField (propertyField (owner (depth + 1)) (taggedValue (depth + 1)))
      ("value", value.toTaggedJson) ⟨some o, some key, none⟩ ⟨some o, some key, some value⟩ :=
    takesField rfl fun rest ends => by
      simp only [String.reduceBEq, ↓reduceIte, Bool.false_eq_true]
      exact (run_next (field_run inside ends)).trans rfl
  refine expectStructure_takes fun rest => ?_
  exact (run_next (members_run (.cons first (.cons second (.cons third (.nil _)))) rest)).trans rfl

/-- A pair of a map, whose brackets take one level. -/
def entryReader : Nat → Reader (Value × Value)
  | 0 => throw .malformed
  | depth + 1 => expectPair (taggedValue depth) (taggedValue depth)

theorem taggedValue_eq (depth : Nat) :
    taggedValue (depth + 2) =
      variant bareValue (valueContent (taggedValue depth) (entryReader depth) (owner depth)) := by
  cases depth <;> rfl

theorem bareValue_eq_none {tag : String} (named : tag ≠ "Null") : bareValue tag = none := by
  simp [bareValue, named]

theorem null_takes (depth : Nat) : Takes (taggedValue depth) (.string "Null") .null := by
  have known : bareValue "Null" = some .null := by simp [bareValue]
  match depth with
  | 0 =>
      refine ⟨⟨'"', _, rfl, by decide, by decide⟩, fun rest _ => ?_⟩
      rw [chars, stringChars_append]
      refine (run_next (peek_run (by decide) _)).trans ((run_next (advance_run _ _)).trans
        ((run_next (string_run _ rest)).trans ?_))
      rw [known]
      rfl
  | 1 => exact variant_bare known
  | depth + 2 =>
      rw [taggedValue_eq]
      exact variant_bare known

/-- A value that holds no other, at any depth that has room for its tag. -/
theorem scalar_taken {tag : String} {j : Json} {v : Value} (inside : Takes (scalar tag) j v)
    (other : tag ∉ ["Null", "List", "Map", "Vertex", "Edge", "Property"]) {depth : Nat}
    (enough : (tagged tag j).depth ≤ depth) : Takes (taggedValue depth) (tagged tag j) v := by
  simp only [List.mem_cons, not_or] at other
  have bare := bareValue_eq_none other.1
  match depth, enough with
  | 0, enough => simp at enough
  | 1, _ => exact variant_takes bare inside
  | depth + 2, _ =>
      rw [taggedValue_eq]
      refine variant_takes bare ?_
      simpa only [valueContent, beq_iff_eq, other, if_false] using inside

theorem content_taken {tag : String} {j : Json} {v : Value} (named : tag ≠ "Null") {depth : Nat}
    (enough : (tagged tag j).depth ≤ depth) (nested : 0 < j.depth)
    (inside : ∀ depth, j.depth ≤ depth + 1 → 
      Takes (valueContent (taggedValue depth) (entryReader depth) (owner depth) tag) j v) :
    Takes (taggedValue depth) (tagged tag j) v := by
  rw [tagged_depth] at enough
  obtain ⟨depth, rfl⟩ : ∃ d, depth = d + 2 := ⟨depth - 2, by omega⟩
  rw [taggedValue_eq]
  exact variant_takes (bareValue_eq_none named) (inside depth (by omega))

mutual

theorem value_takes : (v : Value) → (∀ c ∈ v.contents, c.survivesJson = true) → ∀ {depth : Nat},
    v.toTaggedJson.depth ≤ depth → Takes (taggedValue depth) v.toTaggedJson v
  | .null, _, depth, _ => null_takes depth
  | .bool b, _, _, enough => scalar_taken ((expectBool_takes b).map _) (by decide) enough
  | .int i, _, _, enough => by
      refine scalar_taken ?_ (by decide) enough
      simp only [scalar, String.reduceBEq, ↓reduceIte, Bool.false_eq_true]
      exact (int64_takes i).map _
  | .float x, fits, _, enough => by
      have back : x.readsBack = true := fits (.float x) (List.mem_singleton_self _)
      refine scalar_taken ?_ (by decide) enough
      simp only [scalar, String.reduceBEq, ↓reduceIte, Bool.false_eq_true]
      exact (float_takes back).map _
  | .string s, _, _, enough => by
      refine scalar_taken ?_ (by decide) enough
      simp only [scalar, String.reduceBEq, ↓reduceIte, Bool.false_eq_true]
      exact (expectString_takes s).map _
  | .list items, fits, depth, enough => by
      have inside := (List.forall_mem_cons.mp fits).2
      refine content_taken (by decide) enough (Nat.succ_pos _) fun depth enough => ?_
      simp only [valueContent, String.reduceBEq, ↓reduceIte]
      exact (expectArray_takes (items_take items inside (Nat.le_of_succ_le_succ enough))).map _
  | .map entries, fits, depth, enough => by
      obtain ⟨distinct, inside⟩ := List.forall_mem_cons.mp (List.forall_mem_cons.mp fits).2
      refine content_taken (by decide) enough (Nat.succ_pos _) fun depth enough => ?_
      simp only [valueContent, String.reduceBEq, ↓reduceIte, Bool.false_eq_true]
      refine (expectArray_takes (entries_take entries inside
        (Nat.le_of_succ_le_succ enough))).bind fun rest => ?_
      rw [Dictionary.ofEntries_distinct (of_decide_eq_true distinct)]
      rfl
  | .vertex v, fits, depth, enough => by
      refine content_taken (by decide) enough (Nat.succ_pos _) fun depth _ => ?_
      simp only [valueContent, String.reduceBEq, ↓reduceIte, Bool.false_eq_true]
      exact (vertexRef_takes fits).map _
  | .edge e, fits, depth, enough => by
      refine content_taken (by decide) enough (Nat.succ_pos _) fun depth _ => ?_
      simp only [valueContent, String.reduceBEq, ↓reduceIte, Bool.false_eq_true]
      exact (edgeRef_takes fits).map _
  | .property o key value, fits, depth, enough => by
      obtain ⟨ownerFits, others⟩ := List.forall_mem_append.mp fits
      have inside := (List.forall_mem_cons.mp others).2
      refine content_taken (by decide) enough (Nat.succ_pos _) fun depth enough => ?_
      simp only [valueContent, String.reduceBEq, ↓reduceIte, Bool.false_eq_true]
      obtain ⟨ownerRoom, more⟩ := max_le_iff.mp (Nat.le_of_succ_le_succ enough)
      obtain ⟨valueRoom, -⟩ := max_le_iff.mp (max_le_iff.mp more).2
      obtain _ | depth := depth
      · cases o <;> cases ownerRoom
      · exact property_takes ownerFits (value_takes value inside valueRoom)
termination_by structural v => v

theorem items_take : (items : List Value) →
    (∀ c ∈ Value.itemContents items, c.survivesJson = true) → ∀ {depth : Nat},
    itemsDepth (Value.itemsToTaggedJson items) ≤ depth →
      List.Forall₂ (Takes (taggedValue depth)) (Value.itemsToTaggedJson items) items
  | [], _, _, _ => .nil
  | item :: rest, fits, _, enough => by
      obtain ⟨first, others⟩ := List.forall_mem_append.mp fits
      obtain ⟨room, more⟩ := max_le_iff.mp enough
      exact .cons (value_takes item first room) (items_take rest others more)
termination_by structural items => items

theorem entries_take : (entries : List (Value × Value)) →
    (∀ c ∈ Value.entriesContents entries, c.survivesJson = true) → ∀ {depth : Nat},
    itemsDepth (Value.entriesToTaggedJson entries) ≤ depth →
      List.Forall₂ (Takes (entryReader depth)) (Value.entriesToTaggedJson entries) entries
  | [], _, _, _ => .nil
  | entry :: rest, fits, _, enough => by
      obtain ⟨first, others⟩ := List.forall_mem_append.mp fits
      obtain ⟨room, more⟩ := max_le_iff.mp enough
      exact .cons (entry_takes entry first room) (entries_take rest others more)
termination_by structural entries => entries

theorem entry_takes : (entry : Value × Value) →
    (∀ c ∈ Value.entryContents entry, c.survivesJson = true) → ∀ {depth : Nat},
    (Value.entryToTaggedJson entry).depth ≤ depth →
      Takes (entryReader depth) (Value.entryToTaggedJson entry) entry
  | (key, value), fits, depth, enough => by
      obtain ⟨first, second⟩ := List.forall_mem_append.mp fits
      obtain _ | depth := depth
      · cases enough
      · obtain ⟨keyRoom, others⟩ := max_le_iff.mp (Nat.le_of_succ_le_succ enough)
        obtain ⟨valueRoom, -⟩ := max_le_iff.mp others
        exact expectPair_takes (value_takes key first keyRoom) (value_takes value second valueRoom)
termination_by structural entry => entry

end

/-! ### Predicates -/

/-- Two predicates in one array. -/
def predicatePair : Nat → Reader (Predicate × Predicate)
  | 0 => throw .malformed
  | depth + 1 => expectPair (taggedPredicate depth) (taggedPredicate depth)

theorem taggedPredicate_eq (depth : Nat) :
    taggedPredicate (depth + 1) =
      variant (fun _ => none) (predicateContent depth (taggedPredicate depth)
        (predicatePair depth)) := by
  cases depth <;> rfl

theorem predicate_taken {tag : String} {j : Json} {p : Predicate} {depth : Nat}
    (enough : (tagged tag j).depth ≤ depth)
    (inside : ∀ depth, j.depth ≤ depth →
      Takes (predicateContent depth (taggedPredicate depth) (predicatePair depth) tag) j p) :
    Takes (taggedPredicate depth) (tagged tag j) p := by
  rw [tagged_depth] at enough
  obtain _ | depth := depth
  · cases enough
  · rw [taggedPredicate_eq]
    exact variant_takes rfl (inside depth (Nat.le_of_succ_le_succ enough))

theorem comparison_taken {tag : String} {make : Value → Predicate} {v : Value}
    (known : comparison? tag = some make) (fits : ∀ c ∈ v.contents, c.survivesJson = true)
    {depth : Nat} (enough : (tagged tag v.toTaggedJson).depth ≤ depth) :
    Takes (taggedPredicate depth) (tagged tag v.toTaggedJson) (make v) := by
  refine predicate_taken enough fun depth room => ?_
  simp only [predicateContent, known]
  exact (value_takes v fits room).map make

/-- The reader of what stands in one array, whose bracket takes one level. -/
theorem bracketed_takes {α : Type} {content : Nat → Reader α} {items : List Json} {a : α}
    {depth : Nat} (enough : (Json.array items).depth ≤ depth)
    (inside : ∀ depth, itemsDepth items ≤ depth → Takes (content depth) (.array items) a) :
    Takes (bracketed depth content) (.array items) a := by
  obtain _ | depth := depth
  · cases enough
  · exact inside depth (Nat.le_of_succ_le_succ enough)

theorem values_taken {vs : List Value} {make : List Value → Predicate} {depth : Nat}
    (fits : ∀ c ∈ Value.itemContents vs, c.survivesJson = true)
    (enough : (Json.array (Value.itemsToTaggedJson vs)).depth ≤ depth) :
    Takes (bracketed depth fun depth => make <$> expectArray (taggedValue depth))
      (.array (Value.itemsToTaggedJson vs)) (make vs) :=
  bracketed_takes enough fun _ room => (expectArray_takes (items_take vs fits room)).map make

theorem range_taken {low high : Value} {depth : Nat}
    (first : ∀ c ∈ low.contents, c.survivesJson = true)
    (second : ∀ c ∈ high.contents, c.survivesJson = true)
    (enough : (Json.array [low.toTaggedJson, high.toTaggedJson]).depth ≤ depth) :
    Takes (bracketed depth fun depth => (fun (low, high) => Predicate.between low high) <$>
      expectPair (taggedValue depth) (taggedValue depth))
      (.array [low.toTaggedJson, high.toTaggedJson]) (.between low high) := by
  refine bracketed_takes enough fun depth room => ?_
  obtain ⟨lowRoom, others⟩ := max_le_iff.mp room
  obtain ⟨highRoom, -⟩ := max_le_iff.mp others
  exact (expectPair_takes (value_takes low first lowRoom) (value_takes high second highRoom)).map _

theorem predicatePair_takes {j k : Json} {a b : Predicate} {depth : Nat}
    (enough : (Json.array [j, k]).depth ≤ depth)
    (first : ∀ {depth}, j.depth ≤ depth → Takes (taggedPredicate depth) j a)
    (second : ∀ {depth}, k.depth ≤ depth → Takes (taggedPredicate depth) k b) :
    Takes (predicatePair depth) (.array [j, k]) (a, b) := by
  obtain _ | depth := depth
  · cases enough
  · obtain ⟨firstRoom, others⟩ := max_le_iff.mp (Nat.le_of_succ_le_succ enough)
    obtain ⟨secondRoom, -⟩ := max_le_iff.mp others
    exact expectPair_takes (first firstRoom) (second secondRoom)

theorem predicate_takes (p : Predicate) (fits : ∀ c ∈ p.contents, c.survivesJson = true) {depth : Nat}
    (enough : p.toTaggedJson.depth ≤ depth) :
    Takes (taggedPredicate depth) p.toTaggedJson p := by
  induction p generalizing depth with
  | eq v | neq v | lt v | lte v | gt v | gte v =>
      exact comparison_taken (by simp [comparison?]) fits enough
  | within vs | without vs =>
      have inside := (List.forall_mem_cons.mp fits).2
      refine predicate_taken enough fun depth room => ?_
      simp only [predicateContent, comparison?, String.reduceBEq, ↓reduceIte,
        Bool.false_eq_true]
      exact values_taken inside room
  | between low high =>
      obtain ⟨first, second⟩ := List.forall_mem_append.mp fits
      refine predicate_taken enough fun depth room => ?_
      simp only [predicateContent, comparison?, String.reduceBEq, ↓reduceIte,
        Bool.false_eq_true]
      exact range_taken first second room
  | startingWith s | endingWith s | containing s =>
      refine predicate_taken enough fun depth room => ?_
      simp only [predicateContent, comparison?, textPredicate, String.reduceBEq, ↓reduceIte,
        Bool.false_eq_true]
      exact (expectString_takes s).map _
  | and a b ihA ihB | or a b ihA ihB =>
      obtain ⟨first, second⟩ := List.forall_mem_append.mp fits
      refine predicate_taken enough fun depth room => ?_
      simp only [predicateContent, comparison?, String.reduceBEq, ↓reduceIte,
        Bool.false_eq_true]
      exact (predicatePair_takes room (ihA first) (ihB second)).map _
  | not a ih =>
      refine predicate_taken enough fun depth room => ?_
      simp only [predicateContent, comparison?, String.reduceBEq, ↓reduceIte,
        Bool.false_eq_true]
      exact (ih fits room).map _

/-! ### Programs -/

theorem toJson_depth (p : Program) :
    p.toJson.depth = itemsDepth (Step.stepsToJson p) + 2 := by
  simp [Program.toJson, Json.depth, fieldsDepth, fieldDepth]

theorem step_depth (kind : StepKind) (arguments : List Argument) :
    (Step.mk kind arguments).toJson.depth =
      itemsDepth (Argument.argumentsToJson arguments) + 2 := by
  simp [Step.toJson, Family.toJson, Json.depth, fieldsDepth, fieldDepth]

theorem two_le_stepsDepth (step : Step) (rest : List Step) :
    2 ≤ itemsDepth (Step.stepsToJson (step :: rest)) := by
  obtain ⟨kind, arguments⟩ := step
  rw [Step.stepsToJson, itemsDepth, step_depth]
  exact le_max_of_le_left (Nat.le_add_left 2 _)

theorem programOf_takes {stepReader : Reader Step} {steps : List Step}
    (each : List.Forall₂ (Takes stepReader) (Step.stepsToJson steps) steps) :
    Takes (programOf stepReader) (.object [("steps", .array (Step.stepsToJson steps))]) steps := by
  have field : TakesField (programOf.stepsField stepReader)
      ("steps", .array (Step.stepsToJson steps)) none (some steps) :=
    takesField rfl fun rest ends => by
      simp only [String.reduceBEq, ↓reduceIte]
      exact field_run (expectArray_takes each) ends
  exact expectStructure_takes fun rest => run_next (members_run (.cons field (.nil _)) rest)

theorem stepOf_takes {argumentReader : Reader Argument} {depth : Nat} {kind : StepKind}
    {arguments : List Argument}
    (each : List.Forall₂ (Takes argumentReader) (Argument.argumentsToJson arguments) arguments) :
    Takes (stepOf (member StepKind depth) argumentReader) (Step.mk kind arguments).toJson
      (.mk kind arguments) := by
  have first : TakesField (stepOf.stepField (member StepKind depth) argumentReader)
      ("kind", Family.toJson kind) (none, none) (some kind, none) :=
    takesField rfl fun rest ends => by
      simp only [String.reduceBEq, ↓reduceIte]
      exact (run_next (field_run (member_takes kind depth) ends)).trans rfl
  have second : TakesField (stepOf.stepField (member StepKind depth) argumentReader)
      ("args", .array (Argument.argumentsToJson arguments)) (some kind, none)
      (some kind, some arguments) :=
    takesField rfl fun rest ends => by
      simp only [String.reduceBEq, ↓reduceIte, Bool.false_eq_true]
      exact (run_next (field_run (expectArray_takes each) ends)).trans rfl
  refine expectStructure_takes fun rest => ?_
  exact (run_next (members_run (.cons first (.cons second (.nil _))) rest)).trans rfl

/-- A program inside an argument, two containers below the tag. -/
def programReader : Nat → Reader Program
  | 0 | 1 => throw .malformed
  | 2 | 3 => programOf (throw .malformed)
  | depth + 4 => programOf (stepOf (member StepKind (depth + 1)) (argument depth))

theorem argument_eq (depth : Nat) :
    argument (depth + 1) =
      variant (fun _ => none) (argumentContent depth (programReader depth)) :=
  match depth with
  | 0 | 1 | 2 | 3 | _ + 4 => rfl

theorem argument_taken {tag : String} {j : Json} {a : Argument} {depth : Nat}
    (enough : (tagged tag j).depth ≤ depth)
    (inside : ∀ depth, j.depth ≤ depth →
      Takes (argumentContent depth (programReader depth) tag) j a) :
    Takes (argument depth) (tagged tag j) a := by
  rw [tagged_depth] at enough
  obtain _ | depth := depth
  · cases enough
  · rw [argument_eq]
    exact variant_takes rfl (inside depth (Nat.le_of_succ_le_succ enough))

theorem family_taken {α : Type} [Family α] [DecidableEq α] [LawfulFamily α] {tag : String}
    {make : α → Argument}
    (content : ∀ depth program, argumentContent depth program tag = make <$> member α depth) (a : α)
    {depth : Nat} (enough : (tagged tag (Family.toJson a)).depth ≤ depth) :
    Takes (argument depth) (tagged tag (Family.toJson a)) (make a) := by
  refine argument_taken enough fun depth _ => ?_
  rw [content]
  exact (member_takes a depth).map make

mutual

theorem argument_takes : (a : Argument) → (∀ c ∈ a.contents, c.survivesJson = true) → ∀ {depth : Nat},
    a.toJson.depth ≤ depth → Takes (argument depth) a.toJson a
  | .literal v, fits, _, enough => by
      refine argument_taken enough fun depth room => ?_
      simp only [argumentContent, String.reduceBEq, ↓reduceIte]
      exact (value_takes v fits room).map _
  | .predicate p, fits, _, enough => by
      refine argument_taken enough fun depth room => ?_
      simp only [argumentContent, String.reduceBEq, ↓reduceIte, Bool.false_eq_true]
      exact (predicate_takes p fits room).map _
  | .program steps, fits, _, enough => by
      refine argument_taken enough fun depth room => ?_
      simp only [argumentContent, String.reduceBEq, ↓reduceIte, Bool.false_eq_true]
      refine Takes.map _ ?_
      have levels : itemsDepth (Step.stepsToJson steps) + 2 ≤ depth := toJson_depth steps ▸ room
      match depth, steps, levels with
      | 0, _, levels | 1, _, levels => omega
      | 2, [], _ | 3, [], _ => exact programOf_takes .nil
      | depth + 4, steps, levels =>
          exact programOf_takes (steps_survive steps (List.forall_mem_cons.mp fits).2 (by omega))
      | 2, step :: rest, levels | 3, step :: rest, levels =>
          have least := two_le_stepsDepth step rest
          omega
  | .label s, _, _, enough => by
      refine argument_taken enough fun depth _ => ?_
      simp only [argumentContent, String.reduceBEq, ↓reduceIte, Bool.false_eq_true]
      exact (expectString_takes s).map _
  | .scope s, _, _, enough => family_taken (fun _ _ => rfl) s enough
  | .order o, _, _, enough => family_taken (fun _ _ => rfl) o enough
  | .pop p, _, _, enough => family_taken (fun _ _ => rfl) p enough
  | .column c, _, _, enough => family_taken (fun _ _ => rfl) c enough
  | .cardinality c, _, _, enough => family_taken (fun _ _ => rfl) c enough
  | .token t, _, _, enough => family_taken (fun _ _ => rfl) t enough
  | .function f, _, _, enough => family_taken (fun _ _ => rfl) f enough
termination_by structural a => a

theorem arguments_take : (arguments : List Argument) →
    (∀ c ∈ Argument.argumentsContents arguments, c.survivesJson = true) → ∀ {depth : Nat},
    itemsDepth (Argument.argumentsToJson arguments) ≤ depth →
      List.Forall₂ (Takes (argument depth)) (Argument.argumentsToJson arguments) arguments
  | [], _, _, _ => .nil
  | argument :: rest, fits, _, enough => by
      obtain ⟨first, others⟩ := List.forall_mem_append.mp fits
      obtain ⟨room, more⟩ := max_le_iff.mp enough
      exact .cons (argument_takes argument first room) (arguments_take rest others more)
termination_by structural arguments => arguments

/-- A step takes two levels above those of its arguments. -/
theorem step_takes : (step : Step) → (∀ c ∈ step.contents, c.survivesJson = true) → ∀ {depth : Nat},
    step.toJson.depth ≤ depth + 2 →
      Takes (stepOf (member StepKind (depth + 1)) (argument depth)) step.toJson step
  | .mk kind arguments, fits, depth, enough => by
      have levels : itemsDepth (Argument.argumentsToJson arguments) ≤ depth :=
        Nat.le_of_add_le_add_right (step_depth kind arguments ▸ enough)
      exact stepOf_takes (arguments_take arguments (List.forall_mem_cons.mp fits).2 levels)
termination_by structural step => step

theorem steps_survive : (steps : List Step) →
    (∀ c ∈ Step.stepsContents steps, c.survivesJson = true) → ∀ {depth : Nat},
    itemsDepth (Step.stepsToJson steps) ≤ depth + 2 →
      List.Forall₂ (Takes (stepOf (member StepKind (depth + 1)) (argument depth)))
        (Step.stepsToJson steps) steps
  | [], _, _, _ => .nil
  | step :: rest, fits, _, enough => by
      obtain ⟨first, others⟩ := List.forall_mem_append.mp fits
      obtain ⟨room, more⟩ := max_le_iff.mp enough
      exact .cons (step_takes step first room) (steps_survive rest others more)
termination_by structural steps => steps

end

theorem steps_take (steps : List Step) (fits : ∀ c ∈ Step.stepsContents steps, c.fitsJson = true)
    {depth : Nat} (enough : itemsDepth (Step.stepsToJson steps) ≤ depth + 2) :
    List.Forall₂ (Takes (stepOf (member StepKind (depth + 1)) (argument depth)))
      (Step.stepsToJson steps) steps :=
  steps_survive steps (fun c held => Content.survives_of_fits (fits c held)) enough

theorem Program.survives {p : Program} (survive : ∀ c ∈ p.contents, c.survivesJson = true)
    (shallow : p.toJson.depth < 128) : Program.ofJson? p.toJson.text = some p := by
  rw [toJson_depth] at shallow
  have levels : itemsDepth (Step.stepsToJson p) ≤ 125 := by omega
  have takes : Takes program p.toJson p :=
    programOf_takes (steps_survive p (List.forall_mem_cons.mp survive).2 levels)
  rw [Program.ofJson?, takes.document]

/-- A program without floating-point numbers reads back from its JSON form, unless its containers
nest deeper than readers go. -/
theorem Program.json_form_reads_back (p : Program) (fits : ∀ c ∈ p.contents, c.fitsJson = true)
    (shallow : p.toJson.depth < 128) : Program.ofJson? p.toJson.text = some p := by
  rw [toJson_depth] at shallow
  have levels : itemsDepth (Step.stepsToJson p) ≤ 125 := by omega
  have steps : List.Forall₂ (Takes (step (depthLimit - 2))) (Step.stepsToJson p) p :=
    steps_take p (List.forall_mem_cons.mp fits).2 levels
  have takes : Takes program p.toJson p := programOf_takes steps
  rw [Program.ofJson?, takes.document]

/-- Escapes, a letter beyond 16 bits, the least integer, a map, and programs inside one another. -/
theorem nested_program_reads_back_from_json :
    let p : Program :=
      [.mk .v [], .mk .has [.label "\"a\\\u0001\n𝄞", .predicate (.and (.neq (.int Int64.minValue))
        (.not (.within [.null, .map [(.int 3, .bool true), (.string "", .list [])]])))],
        .mk .repeat_ [.program [.mk .by_ [.program [.mk .select [.label "n", .pop .last]],
          .order .desc], .mk .inject [.literal (.property (.edge ⟨7⟩) "k" (.vertex ⟨⟨1⟩, "p"⟩)),
          .literal (.edge ⟨⟨2⟩, "q", ⟨0⟩, ⟨1⟩⟩)]]]]
    (∀ c ∈ p.contents, c.fitsJson = true) ∧ p.toJson.depth < 128 ∧
      Program.ofJson? p.toJson.text = some p := by
  intro p
  have fits : ∀ c ∈ p.contents, c.fitsJson = true := by decide +kernel
  have shallow : p.toJson.depth < 128 := by decide +kernel
  exact ⟨fits, shallow, p.json_form_reads_back fits shallow⟩

example : (Program.toJson [.mk .as_ [.label "n"]]).text =
    r#"{"steps":[{"kind":"As","args":[{"Label":"n"}]}]}"# := by
  decide +kernel

end PropertyGraph
