import PropertyGraph.Proofs.Cypher.AggregatedRows

/-!
Rows that must be distinct. However a clause makes them, what comes out are different rows, each
with what the items become for some of the traversers that reach the clause.
-/

namespace PropertyGraph

open Exec Plan Script

namespace ReturnItem

variable {item : ReturnItem}

theorem isAggregate_eq_false (free : item.expression.hasAggregate = false) :
    item.expression.isAggregate = false := by
  cases shape : item.expression with
  | countAll =>
      rw [shape] at free
      cases free
  | call name once arguments =>
      rw [shape] at free
      exact (Bool.or_eq_false_iff.mp free).1
  | _ => rfl

theorem input_plain (plain : item.expression.isAggregate = false) :
    item.input = item.expression := by
  cases shape : item.expression with
  | countAll =>
      rw [shape] at plain
      cases plain
  | call name once arguments =>
      rw [shape] at plain
      rcases arguments with _ | ⟨argument, _ | ⟨other, rest⟩⟩
      · simp only [input, shape]
      · simp only [input, shape]
        exact if_neg (Bool.eq_false_iff.mp plain)
      · simp only [input, shape]
  | _ => simp only [input, shape]

end ReturnItem

namespace Cypher

variable {world : World} {b : Bindings} {operations : Ops} {l l' : Live}

/-- All items have a value for such traversers, and such different rows are what they become for
some of them. -/
structure Distinguishes (world : World) (b : Bindings) (items : List ReturnItem) (stream : Stream)
    (rows : List Value) : Prop where
  taken : ∀ t ∈ stream, ∀ item ∈ items,
    columnValue b (.onPath b world.store.graph t) item.input = .ok (taken world b t item)
  distinct : rows.Nodup
  made : ∀ row ∈ rows, ∃ members, members ⊆ stream ∧
    row = rowOf items (ReturnClause.outcome (Cypher.taken world b) members)

namespace Distinguishes

variable {items : List ReturnItem} {stream : Stream} {rows more : List Value}

theorem sublist (holds : Distinguishes world b items stream rows) (part : more.Sublist rows) :
    Distinguishes world b items stream more where
  taken := holds.taken
  distinct := holds.distinct.sublist part
  made row member := holds.made row (part.subset member)

theorem perm (holds : Distinguishes world b items stream rows) (arranged : more.Perm rows) :
    Distinguishes world b items stream more where
  taken := holds.taken
  distinct := arranged.nodup_iff.mpr holds.distinct
  made row member := holds.made row (arranged.subset member)

theorem areRows (holds : Distinguishes world b items stream rows) :
    AreRows (items.map ReturnItem.column) rows := by
  intro row member
  obtain ⟨members, _, rfl⟩ := holds.made row member
  exact ⟨_, rfl, rowOf_columns items _⟩

end Distinguishes

theorem groups_subset {α : Type} {r : ReturnClause} {cell : α → ReturnItem → Value}
    {inputs members : List α} (group : members ∈ r.groups cell inputs) : members ⊆ inputs := by
  unfold ReturnClause.groups at group
  split at group
  · exact List.mem_singleton.mp group ▸ List.Subset.refl _
  · obtain ⟨tuple, _, rfl⟩ := List.mem_map.mp group
    exact List.filter_sublist.subset

variable {r : ReturnClause}

theorem rowOf_single (free : ∀ item ∈ r.items, item.expression.hasAggregate = false)
    (cell : Traverser → ReturnItem → Value) (t : Traverser) :
    rowOf r.items (cell t) = rowOf r.items (ReturnClause.outcome cell [t]) := by
  refine congrArg Value.record (List.map_congr_left fun item listed => ?_)
  rw [ReturnClause.outcome,
    item.result_plain (ReturnItem.isAggregate_eq_false (free item listed))]
  rfl

theorem columns_deliver (quiet : world.sideEffects = [])
    (free : ∀ item ∈ r.items, item.expression.hasAggregate = false)
    (named : r.items.map ReturnItem.column ≠ []) {bys : Ops}
    (projected : columns b r.items = .ok bys) (served : performAll bys l = .ok l') :
    Delivers world (Known b []) (.project (r.items.map ReturnItem.column) :: bys)
      fun stream out => (∀ t ∈ stream, ∀ item ∈ r.items,
        columnValue b (.onPath b world.store.graph t) item.input = .ok (taken world b t item)) ∧
          objects out = stream.map fun t => rowOf r.items (taken world b t) := by
  have rows := columns_project quiet named (List.length_map _) projected served
  refine rows.after fun stream out _ stand => rows_of_isRecord (stand.imp fun t u record => ?_)
  have inputs : itemValues world b (fun item env => columnValue b env item.input) r.items t =
      itemValues world b (fun item env => columnValue b env item.expression) r.items t :=
    List.map_congr_left fun item listed => congrArg (columnValue b _)
      (ReturnItem.input_plain (ReturnItem.isAggregate_eq_false (free item listed)))
  rwa [inputs]

/-- Of rows without aggregates the first of equal ones stays. -/
theorem plainRows_distinguish (quiet : world.sideEffects = []) (once : r.distinct = true)
    (distinct : (r.items.map ReturnItem.column).Nodup)
    (free : ∀ item ∈ r.items, item.expression.hasAggregate = false)
    (compiled : plainRows b r (r.items.map ReturnItem.column) = .ok operations)
    (performed : performAll operations l = .ok l') :
    Delivers world (Known b []) operations fun stream out =>
      Distinguishes world b r.items stream (objects out) := by
  obtain ⟨sorts, bys, after, sorted, projected, last, named, _, ⟨_, _, served⟩, rfl⟩ :=
    plainRows_parts compiled performed
  simp only [sortedBefore, sortedAfter, once, Bool.true_or, if_true] at sorted last
  cases sorted
  have rows := columns_deliver quiet free named projected served
  have dedups : Delivers world _ _ _ := (distinctOps_turn r.distinct).delivers
  have deduped : Delivers world (Known b [])
      (.project (r.items.map ReturnItem.column) :: bys ++ distinctOps r.distinct)
      fun stream out => Distinguishes world b r.items stream (objects out) := by
    refine (rows.append dedups fun _ _ _ _ => trivial).after ?_
    rintro stream out _ ⟨middle, ⟨taken, stands⟩, kept⟩
    have kept := Except.ok.inj kept
    rw [if_pos once, stands] at kept
    refine ⟨taken, kept ▸ eraseDups_nodup _, fun row member => ?_⟩
    obtain ⟨t, given, rfl⟩ := List.mem_map.mp (List.mem_eraseDups.mp (kept ▸ member))
    exact ⟨[t], List.cons_subset.mpr ⟨given, List.nil_subset _⟩, rowOf_single free _ t⟩
  refine (deduped.append (sortRows_deliver distinct last) ?_).after ?_
  · exact fun stream middle _ holds => holds.areRows.isRow
  · rintro stream out _ ⟨middle, holds, perm, _⟩
    exact holds.perm (perm.map _)

theorem aggregatedRows_distinguish (quiet : world.sideEffects = [])
    (distinct : (r.items.map ReturnItem.column).Nodup)
    (compiled : aggregatedRows b r (r.items.map ReturnItem.column) = .ok operations)
    (performed : performAll operations l = .ok l') :
    Delivers world (Known b []) operations fun stream out =>
      Distinguishes world b r.items stream (objects out) := by
  refine (aggregatedRows_deliver quiet distinct compiled performed).after ?_
  rintro stream out _ ⟨taken, perm, _⟩
  refine ⟨taken, perm.nodup_iff.mpr (ReturnClause.summary_nodup distinct), fun row member => ?_⟩
  obtain ⟨members, group, rfl⟩ := List.mem_map.mp (perm.subset member)
  exact ⟨members, groups_subset group, rfl⟩

/-- However rows are made, sorted and cut off, different ones come out. -/
theorem returnOps_distinguish (quiet : world.sideEffects = []) (once : r.distinct = true)
    (compiled : returnOps b r = .ok operations) (performed : performAll operations l = .ok l') :
    (r.items.map ReturnItem.column).Nodup ∧ Delivers world (Known b []) operations
      fun stream out => Distinguishes world b r.items stream (objects out) := by
  have windowed {rows : Ops} (distinguish : Delivers world (Known b []) rows fun stream out =>
      Distinguishes world b r.items stream (objects out)) :
      Delivers world (Known b []) (rows ++ windowOps r) fun stream out =>
        Distinguishes world b r.items stream (objects out) := by
    refine (distinguish.append (windowOps_deliver r) fun _ _ _ _ => trivial).after ?_
    rintro stream out _ ⟨middle, holds, part⟩
    exact holds.sublist (part.map _)
  obtain ⟨distinct, rows, rfl, ⟨_, aggregated⟩ | ⟨free, plain⟩⟩ := returnOps_cases compiled
  all_goals
    obtain ⟨middle, performed, _⟩ := performed_append.mp performed
    refine ⟨distinct, windowed ?_⟩
  · exact aggregatedRows_distinguish quiet distinct aggregated performed
  · exact plainRows_distinguish quiet once distinct free plain performed

end Cypher

end PropertyGraph
