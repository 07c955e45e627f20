import PropertyGraph.Proofs.Cypher.Sequences
import PropertyGraph.Proofs.Graph.Labels

/-!
Expressions are read back from the tokens that they are printed to. Whatever was read once is in a
normal form, and of that the tokens tell everything.
-/

namespace PropertyGraph

open Cypher

section Record

variable {entries written : List (String × Value)}

theorem put_cells (key : String) (v : Value) (entries : List (String × Value)) :
    Dictionary.put (.string key) v (cells entries) = cells (Dictionary.put key v entries) := by
  induction entries with
  | nil => rfl
  | cons entry rest ih =>
      have same : (Value.string entry.1 = .string key) ↔ entry.1 = key :=
        ⟨Value.string.inj, congrArg _⟩
      change (if Value.string entry.1 = .string key then _ else _) =
        cells (if entry.1 = key then _ else _)
      by_cases here : entry.1 = key
      · rw [if_pos here, if_pos (same.mpr here)]
        rfl
      · rw [if_neg here, if_neg fun equal => here (same.mp equal)]
        exact congrArg (_ :: ·) ih

theorem putAll_cells (written entries : List (String × Value)) :
    Dictionary.putAll (cells written) (cells entries) =
      cells (Dictionary.putAll written entries) := by
  induction entries generalizing written with
  | nil => rfl
  | cons entry rest ih =>
      have first := put_cells entry.1 entry.2 written
      calc Dictionary.putAll (Dictionary.put (.string entry.1) entry.2 (cells written)) (cells rest)
          = Dictionary.putAll (cells (Dictionary.put entry.1 entry.2 written)) (cells rest) := by
            rw [first]
        _ = cells (Dictionary.putAll written (entry :: rest)) := ih _

theorem forall_put {P : Value → Prop} {v : Value} (key : String) (holds : P v)
    (all : ∀ entry ∈ entries, P entry.2) : ∀ entry ∈ Dictionary.put key v entries, P entry.2 := by
  induction entries with
  | nil => exact List.forall_mem_singleton.mpr holds
  | cons entry rest ih =>
      rw [List.forall_mem_cons] at all
      rw [Dictionary.put]
      split
      · exact List.forall_mem_cons.mpr ⟨holds, all.2⟩
      · exact List.forall_mem_cons.mpr ⟨all.1, ih all.2⟩

/-- Whatever is made of entries has each key once and holds the values of the entries. -/
theorem putAll_spec {P : Value → Prop} (distinct : (written.map (·.1)).Nodup)
    (all : ∀ entry ∈ written, P entry.2) (others : ∀ entry ∈ entries, P entry.2) :
    ((Dictionary.putAll written entries).map (·.1)).Nodup ∧
      ∀ entry ∈ Dictionary.putAll written entries, P entry.2 := by
  induction entries generalizing written with
  | nil => exact ⟨distinct, all⟩
  | cons entry rest ih =>
      rw [List.forall_mem_cons] at others
      exact ih (Dictionary.keys_put_nodup entry.1 entry.2 distinct)
        (forall_put entry.1 others.1 all) others.2

theorem ofEntries_spec {P : Value → Prop} (all : ∀ entry ∈ entries, P entry.2) :
    ((Dictionary.ofEntries entries).map (·.1)).Nodup ∧
      ∀ entry ∈ Dictionary.ofEntries entries, P entry.2 := by
  have unnamed : (([] : List (String × Value)).map (·.1)).Nodup := List.nodup_nil
  exact putAll_spec unnamed (List.forall_mem_nil _) all

theorem record_eq (entries : List (String × Value)) :
    Value.record entries = .map (cells (Dictionary.ofEntries entries)) :=
  congrArg Value.map (putAll_cells [] entries)

end Record

/-! What is read is normal. -/

theorem literals?_eq_some {items : List Expression} {values : List Value} :
    literals? items = some values ↔ items = values.map .literal := by
  induction items generalizing values with
  | nil =>
      cases values with
      | nil => exact ⟨fun _ => rfl, fun _ => rfl⟩
      | cons v rest => exact ⟨nofun, nofun⟩
  | cons e rest ih =>
      cases e with
      | literal v =>
          have step : literals? (.literal v :: rest) = (literals? rest).map (v :: ·) := by
            rw [literals?]
            cases literals? rest <;> rfl
          rw [step, Option.map_eq_some_iff]
          constructor
          · rintro ⟨others, found, rfl⟩
            rw [List.map_cons, ih.mp found]
          · intro same
            cases values with
            | nil => cases same
            | cons w others =>
                obtain ⟨first, more⟩ := List.cons.inj same
                cases first
                exact ⟨others, ih.mpr more, rfl⟩
      | _ => exact ⟨nofun, by cases values <;> nofun⟩

namespace Expression

theorem Normal.written {v : Value} (normal : (Expression.literal v).Normal) : v.Written := by
  cases normal with
  | literal v written => exact written

theorem written_of_literals {items : List Expression} {values : List Value}
    (found : literals? items = some values) (all : ∀ e ∈ items, e.Normal) :
    ∀ v ∈ values, v.Written := by
  rw [literals?_eq_some] at found
  intro v member
  apply Normal.written
  apply all
  rw [found]
  exact List.mem_map_of_mem member

/-- Literals alone make a literal. -/
theorem Normal.listOf {items : List Expression} (all : ∀ e ∈ items, e.Normal) :
    (listOf items).Normal := by
  unfold Cypher.listOf
  split
  · next values found => exact .literal _ (.list values (written_of_literals found all))
  · next mixed => exact .list items mixed all

theorem Normal.mapOf {entries : List (String × Expression)}
    (all : ∀ entry ∈ entries, entry.2.Normal) : (mapOf entries).Normal := by
  unfold Cypher.mapOf
  split
  · next values found =>
      have written := written_of_literals found (List.forall_mem_map.mpr all)
      have each : ∀ entry ∈ (entries.map (·.1)).zip values, entry.2.Written :=
        fun entry member => written _ (List.of_mem_zip member).2
      obtain ⟨distinct, others⟩ := ofEntries_spec each
      rw [record_eq]
      exact .literal _ (.map _ distinct others)
  · next mixed => exact .map entries mixed all

/-- A sign goes into a number, and stays in front of everything else. -/
theorem Normal.negated {e : Expression} (normal : e.Normal) : (negated e).Normal := by
  unfold Cypher.negated
  split
  · exact .literal _ (.number _ rfl)
  · exact .literal _ (.number _ rfl)
  · next other float =>
      refine .negate e ?_ normal
      unfold Cypher.negated
      split
      · exact absurd rfl (other _)
      · exact absurd rfl (float _)
      · rfl

theorem normal_mirrors : Mirrors [] [] (fun e _ => e.Normal) where
  parameter _ := .none
  string s := .literal _ (.string s)
  number v numeric := .literal v (.number v numeric)
  bool b := .literal _ (.bool b)
  null := .literal _ .null
  reference := .reference
  property := .property
  list related := .listOf (forall_left related fun _ _ normal => normal)
  map related := .mapOf (forall_left related fun _ _ both => both.2)
  negated := .negated
  not := .not _
  isNull := .isNull _
  isNotNull := .isNotNull _
  binary op left right := .binary _ op _ left right
  call name distinct _ _ related := .call name distinct _ (forall_left related fun _ _ normal => normal)
  countAll := .countAll

/-- Without parameters only normal expressions are read. -/
theorem normal_of_read {bytes : Nat} {text rest : List Char} {e : Expression}
    (read : (expression.run ⟨bytes, []⟩).run text = .ok (e, rest)) : e.Normal := by
  have both := expression_twin normal_mirrors bytes bytes text
  rw [read] at both
  cases both with
  | some together => exact together.1

/-! Every expression is read back from its tokens. -/

section Tokens

variable {spell : String → String} {e : Expression}

theorem level_le (e : Expression) : e.level ≤ 8 := by
  cases e with
  | literal v =>
      change (if v.isNegative then 7 else 8) ≤ 8
      split <;> omega
  | binary left op right =>
      have tightest : op.level ≤ 6 := by cases op <;> decide
      exact Nat.le_trans tightest (by omega)
  | _ => exact Nat.le_of_ble_eq_true rfl

/-- With brackets enough for all tokens, an expression is read at its own level. -/
def ReadBack (spell : String → String) (e : Expression) : Prop :=
  ∀ depth, (e.tokens spell).length ≤ depth →
    ReadsAt (expressionWithin depth) e.level (e.tokens spell) e

/-- Inside brackets every expression is read, if there are brackets enough. -/
theorem ReadBack.nests (read : e.ReadBack spell) {depth : Nat}
    (deep : (e.tokens spell).length < depth) :
    Nests (expressionWithin depth) (e.tokens spell) e := by
  obtain ⟨depth, rfl⟩ : ∃ n, depth = n + 1 := ⟨depth - 1, by omega⟩
  have loosest := (read depth (by omega)).mono (Nat.zero_le _) e.level_le
  exact ⟨loosest.heads, loosest.parses⟩

theorem ReadBack.tokensAt (read : e.ReadBack spell) {place depth : Nat} (below : place ≤ 8)
    (deep : (e.tokensAt spell place).length ≤ depth) :
    ReadsAt (expressionWithin depth) place (e.tokensAt spell place) e := by
  unfold Expression.tokensAt enclosed at deep ⊢
  split at deep
  · next looser =>
      rw [if_pos looser]
      rw [List.length_append, List.length_cons] at deep
      have inside : Nests (expressionWithin depth) (e.tokens spell) e := read.nests (by omega)
      exact (ReadsAt.enclosed inside.2).mono below (Nat.le_refl 8)
  · next tight =>
      rw [if_neg tight]
      exact (read depth deep).mono (by omega) e.level_le

theorem length_le_of_mem {part : List Token} {parts : List (List Token)} (member : part ∈ parts) :
    part.length ≤ (commas parts).length := by
  fun_induction commas parts with
  | case1 => cases member
  | case2 tokens =>
      cases List.mem_singleton.mp member
      exact Nat.le_refl _
  | case3 tokens rest _ ih =>
      rw [List.length_append, List.length_cons]
      rcases List.mem_cons.mp member with rfl | later
      · omega
      · have := ih later
        omega

theorem nests_all {α : Type} {written : α → List Token} {made : α → Expression} {items : List α}
    {depth : Nat} (deep : (commas (items.map written)).length < depth)
    (each : ∀ a ∈ items, (made a).tokens spell = written a ∧ (made a).ReadBack spell) :
    List.Forall₂ (Nests (expressionWithin depth)) (items.map written) (items.map made) := by
  rw [List.forall₂_map_left_iff, List.forall₂_map_right_iff, List.forall₂_same]
  intro a member
  obtain ⟨same, read⟩ := each a member
  have short := length_le_of_mem (List.mem_map.mpr ⟨a, member, rfl⟩ : written a ∈ items.map written)
  rw [← same]
  apply read.nests
  rw [same]
  omega

theorem nests_entries {α : Type} {written : α → List Token} {made : α → Expression}
    {entries : List (String × α)} {depth : Nat} (deep : (commas (entries.map fun entry =>
      keyToken entry.1 :: [':'] :: written entry.2)).length < depth)
    (each : ∀ entry ∈ entries, (made entry.2).tokens spell = written entry.2 ∧
      (made entry.2).ReadBack spell) :
    List.Forall₂ (NestsEntry (expressionWithin depth))
      (entries.map fun entry => keyToken entry.1 :: [':'] :: written entry.2)
      (entries.map fun entry => (entry.1, made entry.2)) := by
  rw [List.forall₂_map_left_iff, List.forall₂_map_right_iff, List.forall₂_same]
  intro entry member
  obtain ⟨same, read⟩ := each entry member
  have short := length_le_of_mem (List.mem_map.mpr ⟨entry, member, rfl⟩ :
    keyToken entry.1 :: [':'] :: written entry.2 ∈ entries.map fun entry =>
      keyToken entry.1 :: [':'] :: written entry.2)
  rw [List.length_cons, List.length_cons] at short
  refine ⟨written entry.2, rfl, ?_⟩
  rw [← same]
  apply (read.nests _).2
  rw [same]
  omega

theorem readsAt_list {α : Type} {written : α → List Token} {made : α → Expression}
    {items : List α} {depth : Nat}
    (deep : (['['] :: commas (items.map written) ++ [[']']]).length ≤ depth)
    (each : ∀ a ∈ items, (made a).tokens spell = written a ∧ (made a).ReadBack spell) :
    ReadsAt (expressionWithin depth) 8 (['['] :: commas (items.map written) ++ [[']']])
      (listOf (items.map made)) := by
  rw [List.length_append, List.length_cons] at deep
  exact .list (nests_all (by omega) each)

theorem readsAt_map {α : Type} {written : α → List Token} {made : α → Expression}
    {entries : List (String × α)} {depth : Nat}
    (deep : (['{'] :: commas (entries.map fun entry =>
      keyToken entry.1 :: [':'] :: written entry.2) ++ [['}']]).length ≤ depth)
    (each : ∀ entry ∈ entries, (made entry.2).tokens spell = written entry.2 ∧
      (made entry.2).ReadBack spell) :
    ReadsAt (expressionWithin depth) 8 (['{'] :: commas (entries.map fun entry =>
        keyToken entry.1 :: [':'] :: written entry.2) ++ [['}']])
      (mapOf (entries.map fun entry => (entry.1, made entry.2))) := by
  rw [List.length_append, List.length_cons] at deep
  exact .map (nests_entries (by omega) each)

end Tokens

end Expression

namespace Value

theorem tokensOfAll_eq (items : List Value) : tokensOfAll items = items.map tokens := by
  induction items with
  | nil => rfl
  | cons v rest ih => rw [tokensOfAll, ih, List.map_cons]

theorem tokensOfEntries_eq (entries : List (String × Value)) : tokensOfEntries (cells entries) =
    entries.map fun entry => keyToken entry.1 :: [':'] :: entry.2.tokens := by
  induction entries with
  | nil => rfl
  | cons entry rest ih =>
      change tokensOfEntry _ :: tokensOfEntries (cells rest) = _
      rw [ih, List.map_cons, tokensOfEntry]
      rfl

variable {spell : String → String}

/-- Only the least integer has more than 63 bits behind its sign. -/
theorem natAbs_fits {i : Int64} (greater : i ≠ Int64.minValue) : i.toInt.natAbs < twoTo 63 := by
  have low := i.le_toInt
  have high := i.toInt_lt
  have above : i.toInt ≠ -2 ^ 63 := fun least => greater (Int64.toInt.inj least)
  have power : twoTo 63 = 2 ^ 63 := rfl
  omega

theorem negated_natAbs {i : Int64} (negative : i.toInt < 0) :
    negated (.literal (.int (Int64.ofInt i.toInt.natAbs))) = .literal (.int i) := by
  have opposite : i.toInt = -(i.toInt.natAbs : Int) := by omega
  have number : -Int64.ofInt i.toInt.natAbs = i := by
    rw [← Int64.ofInt_neg, ← opposite, Int64.ofInt_toInt]
  rw [Cypher.negated, number]

theorem ofInt_natAbs {i : Int64} (positive : ¬i.toInt < 0) : Int64.ofInt i.toInt.natAbs = i := by
  have same : (i.toInt.natAbs : Int) = i.toInt := by omega
  rw [same, Int64.ofInt_toInt]

/-- Integers are read from their digits, with a sign in front of negative ones. -/
theorem readBack_int {i : Int64} (greater : i ≠ Int64.minValue) :
    (Expression.literal (.int i)).ReadBack spell := by
  intro depth deep
  have digits_ : ReadsAt (expressionWithin depth) 8 [digitChars i.toInt.natAbs]
      (.literal (.int (Int64.ofInt i.toInt.natAbs))) := .number (natAbs_fits greater)
  rw [Expression.tokens, tokens]
  change ReadsAt _ (if decide (i.toInt < 0) = true then 7 else 8) _ _
  by_cases negative : i.toInt < 0
  · rw [if_pos (decide_eq_true negative), if_pos negative, ← negated_natAbs negative]
    exact (digits_.looser (by omega)).negate
  · rw [if_neg (by simpa using negative), if_neg negative]
    rwa [ofInt_natAbs negative] at digits_

theorem readBack {v : Value} (written : v.Written) (whole : v.Whole) :
    (Expression.literal v).ReadBack spell := by
  induction written with
  | null => exact fun depth deep => .null
  | bool b => exact fun depth deep => .truth b
  | number v numeric =>
      cases whole with
      | int i greater => exact readBack_int greater
      | _ => cases numeric
  | string s => exact fun depth deep => .string (quoted_isLiteral s)
  | list items all ih =>
      cases whole with
      | list items every =>
          intro depth deep
          have tokens_ : (Expression.literal (.list items)).tokens spell =
              ['['] :: commas (items.map tokens) ++ [[']']] := by
            rw [← tokensOfAll_eq, Expression.tokens, tokens]
          rw [tokens_] at deep ⊢
          have made : listOf (items.map .literal) = .literal (.list items) := by
            rw [listOf, literals?_eq_some.mpr rfl]
          have reads : ReadsAt (expressionWithin depth) 8 _ (listOf (items.map .literal)) :=
            Expression.readsAt_list deep fun v member =>
              ⟨Expression.tokens.eq_1 spell v, ih v member (every v member)⟩
          rw [made] at reads
          exact reads
  | map entries distinct all ih =>
      cases whole with
      | map _ every =>
          intro depth deep
          have tokens_ : (Expression.literal (.map (cells entries))).tokens spell =
              ['{'] :: commas (entries.map fun entry => keyToken entry.1 :: [':'] ::
                entry.2.tokens) ++ [['}']] := by
            rw [← tokensOfEntries_eq, Expression.tokens, tokens]
          rw [tokens_] at deep ⊢
          have values : literals? ((entries.map fun entry =>
              (entry.1, Expression.literal entry.2)).map (·.2)) = some (entries.map (·.2)) := by
            rw [literals?_eq_some, List.map_map, List.map_map]
            rfl
          have pairs : (entries.map (·.1)).zip (entries.map (·.2)) = entries :=
            (List.zip_of_prod rfl rfl).symm
          have made : mapOf (entries.map fun entry => (entry.1, .literal entry.2)) =
              .literal (.map (cells entries)) := by
            rw [mapOf, values, List.map_map, ← record_distinct distinct]
            exact congrArg (fun entries => Expression.literal (.record entries)) pairs
          have cell (entry : String × Value) (member : entry ∈ entries) :
              (.string entry.1, entry.2) ∈ cells entries :=
            List.mem_map.mpr ⟨entry, member, rfl⟩
          have reads : ReadsAt (expressionWithin depth) 8 _
              (mapOf (entries.map fun entry => (entry.1, .literal entry.2))) :=
            Expression.readsAt_map deep fun entry member =>
              ⟨Expression.tokens.eq_1 spell entry.2, ih entry member (every _ (cell entry member))⟩
          rw [made] at reads
          exact reads

end Value

namespace Expression

variable {spell : String → String} {e : Expression}

theorem tokensOfAll_eq (items : List Expression) :
    tokensOfAll spell items = items.map (tokens spell) := by
  induction items with
  | nil => rfl
  | cons e rest ih => rw [tokensOfAll, ih, List.map_cons]

theorem tokensOfEntries_eq (entries : List (String × Expression)) : tokensOfEntries spell entries =
    entries.map fun entry => keyToken entry.1 :: [':'] :: tokens spell entry.2 := by
  induction entries with
  | nil => rfl
  | cons entry rest ih =>
      obtain ⟨key, e⟩ := entry
      rw [tokensOfEntries, ih, List.map_cons, tokensOfEntry]

theorem leftPlace_le (op : BinaryOperator) : op.leftPlace ≤ 8 ∧ op.level + 1 ≤ 8 := by
  cases op <;> decide

/-- Normal expressions with plain names are read back from their tokens. -/
theorem readBack (plain : e.Plain spell) (normal : e.Normal) : e.ReadBack spell := by
  induction plain with
  | literal v whole => exact Value.readBack normal.written whole
  | reference name bare other =>
      cases normal with
      | reference _ free => exact fun depth deep => .reference bare free other
  | property owner key bare other bareKey =>
      cases normal with
      | property _ _ free => exact fun depth deep => .property bare free other bareKey
  | list items _ ih =>
      cases normal with
      | list _ mixed every =>
          intro depth deep
          rw [tokens, tokensOfAll_eq] at deep ⊢
          have reads : ReadsAt (expressionWithin depth) 8 _ (listOf (items.map id)) :=
            readsAt_list deep fun e member => ⟨rfl, ih e member (every e member)⟩
          rw [List.map_id, listOf, mixed] at reads
          exact reads
  | map entries _ ih =>
      cases normal with
      | map _ mixed every =>
          intro depth deep
          rw [tokens, tokensOfEntries_eq] at deep ⊢
          have reads : ReadsAt (expressionWithin depth) 8 _
              (mapOf (entries.map fun entry => (entry.1, id entry.2))) :=
            readsAt_map deep fun entry member => ⟨rfl, ih entry member (every entry member)⟩
          rw [show entries.map (fun entry => (entry.1, id entry.2)) = entries from List.map_id _,
            mapOf, mixed] at reads
          exact reads
  | binary left op right _ _ ihLeft ihRight =>
      cases normal with
      | binary _ _ _ first second =>
          intro depth deep
          obtain ⟨placeLeft, placeRight⟩ := leftPlace_le op
          have whole : (Expression.binary left op right).tokens spell =
              left.tokensAt spell op.leftPlace ++
                (op.tokens ++ right.tokensAt spell (op.level + 1)) := tokens.eq_6 ..
          rw [whole] at deep ⊢
          rw [List.length_append, List.length_append] at deep
          exact .binary ((ihLeft first).tokensAt placeLeft (by omega))
            ((ihRight second).tokensAt placeRight (by omega))
  | not operand _ ih =>
      cases normal with
      | not _ inside =>
          intro depth deep
          rw [tokens, List.length_cons] at deep
          rw [tokens]
          exact .not ((ih inside).tokensAt (by omega) (Nat.le_of_succ_le deep))
  | negate operand _ ih =>
      cases normal with
      | negate _ unsigned inside =>
          intro depth deep
          rw [tokens, List.length_cons] at deep
          have reads := ((ih inside).tokensAt (by omega) (Nat.le_of_succ_le deep)).negate
          rw [unsigned] at reads
          rw [tokens]
          exact reads
  | isNull operand _ ih =>
      cases normal with
      | isNull _ inside =>
          intro depth deep
          rw [tokens] at deep ⊢
          have short : (operand.tokensAt spell 5).length ≤ depth := by
            rw [List.length_append] at deep
            exact Nat.le_of_add_right_le deep
          exact ((ih inside).tokensAt (by omega) short).tested false
  | isNotNull operand _ ih =>
      cases normal with
      | isNotNull _ inside =>
          intro depth deep
          rw [tokens] at deep ⊢
          have short : (operand.tokensAt spell 5).length ≤ depth := by
            rw [List.length_append] at deep
            exact Nat.le_of_add_right_le deep
          exact ((ih inside).tokensAt (by omega) short).tested true
  | call name distinct arguments spelled _ ih =>
      cases normal with
      | call _ _ _ every =>
          intro depth deep
          rw [tokens, tokensOfAll_eq] at deep ⊢
          rw [List.length_append, List.length_append] at deep
          have closing : ([[')']] : List Token).length = 1 := rfl
          have inside : List.Forall₂ (Nests (expressionWithin depth))
              (arguments.map (tokens spell)) (arguments.map id) :=
            nests_all (by omega) fun e member => ⟨rfl, ih e member (every e member)⟩
          rw [List.map_id] at inside
          have reads := ReadsAt.call spelled.plain spelled.free spelled.other distinct inside
          rw [spelled.same] at reads
          exact reads
  | countAll => exact fun depth deep => .countAll

/-! Nothing that is printed ends with a blank. -/

theorem finishes_literal {v : Value} (whole : v.Whole) : Finishes v.tokens := by
  cases whole with
  | null => exact ⟨[], "NUL".toList, 'L', rfl, rfl⟩
  | bool b =>
      cases b with
      | false => exact ⟨[], "FALS".toList, 'E', rfl, rfl⟩
      | true => exact ⟨[], "TRU".toList, 'E', rfl, rfl⟩
  | int i greater =>
      rw [Value.tokens]
      split
      · exact (Finishes.of_number _).prepend [['-']]
      · exact .of_number _
  | string s => exact ⟨[], '\'' :: s.toList.flatMap escaped, '\'', rfl, rfl⟩
  | list items all =>
      rw [Value.tokens]
      exact ⟨['['] :: commas (Value.tokensOfAll items), [], ']', rfl, rfl⟩
  | map entries all =>
      rw [Value.tokens]
      exact ⟨['{'] :: commas (Value.tokensOfEntries entries), [], '}', rfl, rfl⟩

theorem finishes (plain : e.Plain spell) : Finishes (e.tokens spell) := by
  induction plain with
  | literal v whole => exact finishes_literal whole
  | reference name bare other => exact .of_name bare
  | property owner key bare other bareKey =>
      exact (Finishes.of_name bareKey).prepend [owner.toList, ['.']]
  | list items all ih =>
      rw [tokens]
      exact ⟨['['] :: commas (tokensOfAll spell items), [], ']', rfl, rfl⟩
  | map entries all ih =>
      rw [tokens]
      exact ⟨['{'] :: commas (tokensOfEntries spell entries), [], '}', rfl, rfl⟩
  | binary left op right _ _ ihLeft ihRight =>
      rw [tokens]
      exact ((ihRight.enclosed _ _).prepend _).prepend _
  | not operand _ ih =>
      rw [tokens]
      exact (ih.enclosed _ _).prepend ["NOT".toList]
  | negate operand _ ih =>
      rw [tokens]
      exact (ih.enclosed _ _).prepend [['-']]
  | isNull operand _ ih =>
      rw [tokens]
      exact Finishes.prepend ⟨["IS".toList], "NUL".toList, 'L', rfl, rfl⟩ _
  | isNotNull operand _ ih =>
      rw [tokens]
      exact Finishes.prepend ⟨["IS".toList, "NOT".toList], "NUL".toList, 'L', rfl, rfl⟩ _
  | call name distinct arguments spelled _ ih =>
      rw [tokens]
      exact Finishes.prepend (Finishes.prepend ⟨[], [], ')', rfl, rfl⟩ _) _
  | countAll => exact ⟨["count".toList, ['('], ['*']], [], ')', rfl, rfl⟩

theorem printsBack (plain : e.Plain spell) (normal : e.Normal) :
    PrintsBack (tokens spell) e := by
  have read := readBack plain normal
  have begins : Begins (e.tokens spell) :=
    (read _ (Nat.le_refl _)).heads.begins
  refine ⟨(read.nests (Nat.lt_succ_self _)).1, finishes plain, ?_⟩
  refine .of_get fun text rest skipped ends => ?_
  have long := begins.length_le skipped
  exact (read.nests (Nat.lt_succ_of_le long)).2 text rest skipped ends

end Expression

end PropertyGraph
