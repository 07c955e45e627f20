import PropertyGraph.Cypher.ReturnScript
import PropertyGraph.Cypher.WriteScript
import PropertyGraph.Proofs.Builder.Insertion
import PropertyGraph.Proofs.Cypher.Names
import PropertyGraph.Proofs.Cypher.PatternScript

/-!
The names in clauses. What a clause appends looks up no other names, and may follow any steps: it
does not begin with a modulator.
-/

namespace PropertyGraph

namespace Cypher

open Script

variable {view : View} {b b' : Bindings}

/-- The operations are within the view and do not begin with a modulator. -/
def Follow (view : View) (operations : Ops) : Prop :=
  view.AdmitsOps operations ∧ Op.Open operations

namespace Follow

variable {first second : Ops}

theorem nil : Follow view [] := ⟨trivial, nofun⟩

theorem cons {op : Op Script} (admitted : view.AdmitsOp op) (stands : op.stands = true)
    (rest : view.AdmitsOps second) : Follow view (op :: second) :=
  ⟨⟨admitted, rest⟩, fun _ same => Option.some.inj same ▸ stands⟩

theorem append (opens : Follow view first) (next : Follow view second) :
    Follow view (first ++ second) :=
  ⟨View.admitsOps_append.mpr ⟨opens.1, next.1⟩, opens.2.append next.2⟩

end Follow

/-- So many operations within the view, none of them a modulator or a loop. -/
structure Straight (view : View) (n : Nat) (operations : Ops) : Prop where
  admitted : view.AdmitsOps operations
  straight : ∀ op ∈ operations, op.isStraight = true
  length : operations.length = n

namespace Straight

variable {m n : Nat} {first second : Ops}

theorem nil : Straight view 0 [] := ⟨trivial, nofun, rfl⟩

theorem cons {op : Op Script} (admitted : view.AdmitsOp op) (straight : op.isStraight = true)
    (rest : Straight view n second) : Straight view (n + 1) (op :: second) :=
  ⟨⟨admitted, rest.admitted⟩, List.forall_mem_cons.mpr ⟨straight, rest.straight⟩,
    congrArg (· + 1) rest.length⟩

theorem append (left : Straight view m first) (right : Straight view n second) :
    Straight view (m + n) (first ++ second) where
  admitted := View.admitsOps_append.mpr ⟨left.admitted, right.admitted⟩
  straight := List.forall_mem_append.mpr ⟨left.straight, right.straight⟩
  length := by rw [List.length_append, left.length, right.length]

theorem follow (straight : Straight view n first) : Follow view first :=
  ⟨straight.admitted, fun op same =>
    Op.stands_of_straight (straight.straight op (List.mem_of_mem_head? same))⟩

end Straight

theorem filterOp_yields (key : String) {e : Expression}
    (knows : ∀ name ∈ e.names, Knows view b b' name) :
    Yields (fun op => view.AdmitsOp op ∧ op.isStraight = true) (filterOp b key e)
      (filterOp b' key e) := by
  unfold filterOp
  split
  · exact .ok ⟨View.admitsOp_has _ _, rfl⟩
  · refine (valueScript_yields knows).bind fun other inside => .ok ⟨?_, rfl⟩
    have both : view.AdmitsOp (.nested .union [.of [ownProperty key], other]) := by
      refine View.admitsOp_nested trivial fun script member => ?_
      rcases List.mem_cons.mp member with rfl | rest
      · exact ⟨Admits.ownProperty key, trivial⟩
      · exact List.mem_singleton.mp rest ▸ inside
    refine View.admitsOp_nested trivial fun script member => ?_
    cases List.mem_singleton.mp member
    exact ⟨both, View.admitsOp_bare rfl, View.admitsOp_apply _, View.admitsOp_is _, trivial⟩

theorem filterOps_yields {properties : List (String × Expression)}
    (knows : ∀ name ∈ Expression.namesOfEntries properties, Knows view b b' name) :
    Yields (Straight view properties.length) (filterOps b properties)
      (filterOps b' properties) := by
  unfold filterOps
  induction properties with
  | nil => exact .ok .nil
  | cons entry rest ih =>
      obtain ⟨key, e⟩ := entry
      have known : ∀ name ∈ e.names, Knows view b b' name := fun name member =>
        knows name (List.mem_append_left _ member)
      have others := ih fun name member => knows name (List.mem_append_right _ member)
      rw [List.mapM_cons, List.mapM_cons]
      refine (filterOp_yields key known).bind fun op one => others.bind fun more straight => ?_
      exact .ok (.cons one.1 one.2 straight)

end Cypher

namespace NodePattern

def names (node : NodePattern) : List String :=
  node.name.toList ++ Expression.namesOfEntries node.properties

end NodePattern

namespace RelationshipPattern

def names (r : RelationshipPattern) : List String :=
  r.name.toList ++ Expression.namesOfEntries r.properties

end RelationshipPattern

/-- The columns of a clause, and the names in its expressions. -/
def ReturnClause.names (r : ReturnClause) : List String :=
  r.items.flatMap (fun item => item.column :: item.expression.names) ++
    r.order.flatMap fun item => item.expression.names

namespace Cypher

open Script

variable {view : View} {b b' : Bindings}

theorem hasLabel_straight (labels : List String) :
    Straight view labels.length (labels.map fun label => .hasLabel [label]) := by
  induction labels with
  | nil => exact .nil
  | cons label rest ih => exact .cons (View.admitsOp_hasLabel _) rfl ih

theorem constraintOps_yields {node : NodePattern}
    (knows : ∀ name ∈ Expression.namesOfEntries node.properties, Knows view b b' name) :
    Yields (Straight view (node.labels.length + node.properties.length)) (constraintOps b node)
      (constraintOps b' node) :=
  (filterOps_yields knows).map fun _ straight => (hasLabel_straight node.labels).append straight

theorem by_admitted {inside : Ops} (admitted : view.AdmitsOps inside) :
    view.AdmitsOp (.nested .by_ [.of inside]) :=
  View.admitsOp_nested trivial fun _ member => List.mem_singleton.mp member ▸ admitted

theorem relationshipColumn_admitted : view.AdmitsOps relationshipColumn := by
  have properties : view.AdmitsOp (.append .valueMap [.literal (.bool true)]) :=
    View.admitsOp_flat rfl (by simp [Slot.literal])
  exact ⟨View.admitsOp_project _, by_admitted ⟨properties, trivial⟩,
    by_admitted ⟨View.admitsOp_bare rfl, View.admitsOp_bare rfl, trivial⟩,
    by_admitted ⟨View.admitsOp_bare rfl, View.admitsOp_bare rfl, trivial⟩, trivial⟩

theorem columnOps_yields {e : Expression} (knows : ∀ name ∈ e.names, Knows view b b' name) :
    Yields view.AdmitsOps (columnOps b e) (columnOps b' e) := by
  cases e with
  | reference name =>
      have known := knows name (List.mem_singleton.mpr rfl)
      have selects := Admits.selectOne known.reads
      refine (kindOf_yields known).bind fun kind _ => ?_
      cases kind with
      | node => exact .ok ⟨selects, View.admitsOp_flat rfl (by simp [Slot.literal]), trivial⟩
      | relationship => exact .ok ⟨selects, relationshipColumn_admitted⟩
      | relationships =>
          refine .ok (View.admitsOps_append.mpr ⟨View.admitsOps_append.mpr ⟨?_, ?_⟩, ?_⟩)
          · exact ⟨View.admitsOp_selectLabel _ known.reads, View.admitsOp_bare rfl, trivial⟩
          · exact relationshipColumn_admitted
          · exact ⟨View.admitsOp_bare rfl, trivial⟩
  | _ => exact valueOps_yields _ knows

theorem columns_yield {items : List ReturnItem}
    (knows : ∀ item ∈ items, ∀ name ∈ item.expression.names, Knows view b b' name) :
    Yields view.AdmitsOps (columns b items) (columns b' items) := by
  induction items with
  | nil => exact .ok trivial
  | cons item rest ih =>
      have others := ih fun other member => knows other (List.mem_cons_of_mem _ member)
      refine (columnOps_yields (knows item List.mem_cons_self)).bind fun column inside => ?_
      exact others.bind fun _ more => .ok ⟨by_admitted inside, more⟩

theorem sortKeys_yield {items : List ReturnItem} {order : List SortItem}
    (knows : ∀ item ∈ items, ∀ name ∈ item.expression.names, Knows view b b' name)
    (knowsOrder : ∀ item ∈ order, ∀ name ∈ item.expression.names, Knows view b b' name) :
    Yields view.AdmitsOps (sortKeys b items order) (sortKeys b' items order) := by
  induction order with
  | nil => exact .ok trivial
  | cons item rest ih =>
      have others := ih fun other member => knowsOrder other (List.mem_cons_of_mem _ member)
      have resolved : ∀ name ∈ (resolveAlias items item.expression).names,
          Knows view b b' name := by
        unfold resolveAlias
        split
        · split
          · next found => exact knows _ (List.mem_of_find?_eq_some found)
          · exact knowsOrder item List.mem_cons_self
        · exact knowsOrder item List.mem_cons_self
      refine (valueScript_yields resolved).bind fun key inside => ?_
      exact others.bind fun _ more => .ok ⟨View.admitsOp_byOrder inside _, more⟩

theorem sortRows_yields {names : List String} (reads : ∀ name ∈ names, view.reads name)
    (order : List SortItem) :
    Yields (Follow view) (sortRows names order) (sortRows names order) := by
  have keys (order : List SortItem) :
      Yields view.AdmitsOps (columnSortKeys names order) (columnSortKeys names order) := by
    induction order with
    | nil => exact .ok trivial
    | cons item rest ih =>
        have column : Yields view.reads (sortColumn names item) (sortColumn names item) := by
          refine .of_eq rfl fun name same => ?_
          unfold sortColumn at same
          dsimp only at same
          split at same <;> split at same <;> cases same
          all_goals exact reads _ (List.contains_iff_mem.mp ‹_›)
        refine column.bind fun name known => ih.bind fun _ more => ?_
        have inside : view.AdmitsScript (.of [.select [name]]) := ⟨Admits.selectOne known, trivial⟩
        exact .ok ⟨View.admitsOp_byOrder inside _, more⟩
  unfold sortRows
  split
  · exact .ok .nil
  · exact (keys order).bind fun _ inside => .ok (.cons (View.admitsOp_bare rfl) rfl inside)

theorem distinctOps_follow (distinct : Bool) : Follow view (distinctOps distinct) := by
  cases distinct with
  | false => exact .nil
  | true => exact .cons (View.admitsOp_labelled trivial nofun) rfl trivial

/-- What the script of a clause that returns rows looks up is known. -/
structure KnowsRows (view : View) (b b' : Bindings) (r : ReturnClause) : Prop where
  columns : ∀ item ∈ r.items, view.reads item.column
  items : ∀ item ∈ r.items, ∀ name ∈ item.expression.names, Knows view b b' name
  order : ∀ item ∈ r.order, ∀ name ∈ item.expression.names, Knows view b b' name

theorem KnowsRows.of_names {r : ReturnClause} (knows : ∀ name ∈ r.names, Knows view b b' name) :
    KnowsRows view b b' r where
  columns item member := by
    refine (knows item.column (List.mem_append_left _ ?_)).reads
    exact List.mem_flatMap.mpr ⟨item, member, List.mem_cons_self⟩
  items item member name mentioned := by
    refine knows name (List.mem_append_left _ ?_)
    exact List.mem_flatMap.mpr ⟨item, member, List.mem_cons_of_mem _ mentioned⟩
  order item member name mentioned :=
    knows name (List.mem_append_right _ (List.mem_flatMap.mpr ⟨item, member, mentioned⟩))

variable {r : ReturnClause}

theorem KnowsRows.reads (knows : KnowsRows view b b' r) :
    ∀ column ∈ r.items.map ReturnItem.column, view.reads column := by
  intro column member
  obtain ⟨item, listed, rfl⟩ := List.mem_map.mp member
  exact knows.columns item listed

theorem projects (names : List String) {rest : Ops} (inside : view.AdmitsOps rest) :
    Follow view (.project names :: rest) := by
  refine .cons (View.admitsOp_project _) ?_ inside
  unfold Op.project
  split <;> rfl

theorem plainRows_yield (knows : KnowsRows view b b' r) :
    Yields (Follow view) (plainRows b r (r.items.map ReturnItem.column))
      (plainRows b' r (r.items.map ReturnItem.column)) := by
  have rows {before after columns : Ops} (first : Follow view before)
      (inside : view.AdmitsOps columns) (last : Follow view after) :
      Follow view (before ++ .project (r.items.map ReturnItem.column) :: columns
        ++ distinctOps r.distinct ++ after) := by
    exact ((first.append (projects _ inside)).append (distinctOps_follow _)).append last
  have ending {before : Ops} (first : Follow view before) : Yields (Follow view)
      (do
        let columns ← columns b r.items
        let after ← if r.distinct then sortRows (r.items.map ReturnItem.column) r.order else pure []
        return before ++ .project (r.items.map ReturnItem.column) :: columns
          ++ distinctOps r.distinct ++ after)
      (do
        let columns ← columns b' r.items
        let after ← if r.distinct then sortRows (r.items.map ReturnItem.column) r.order else pure []
        return before ++ .project (r.items.map ReturnItem.column) :: columns
          ++ distinctOps r.distinct ++ after) := by
    refine (columns_yield knows.items).bind fun columns inside => ?_
    dsimp only
    split
    · exact (sortRows_yields knows.reads r.order).bind fun _ last => .ok (rows first inside last)
    · exact .ok (rows first inside .nil)
  unfold plainRows
  dsimp only
  split
  · exact ending .nil
  · exact (sortKeys_yield knows.items knows.order).bind fun _ inside =>
      ending (.cons (View.admitsOp_bare rfl) rfl inside)

theorem inputs_yield {items : List ReturnItem}
    (known : ∀ item ∈ items, ∀ name ∈ item.expression.names, Knows view b b' name) :
    Yields view.AdmitsOps (inputs b items) (inputs b' items) := by
  have plain (item : ReturnItem) (e : Expression)
      (known : ∀ name ∈ e.names, Knows view b b' name) :
      Yields view.AdmitsOps (inputOps.plain b item e) (inputOps.plain b' item e) := by
    unfold inputOps.plain
    split
    · exact .error _
    · exact columnOps_yields known
  have input (item : ReturnItem) (known : ∀ name ∈ item.expression.names, Knows view b b' name) :
      Yields view.AdmitsOps (inputOps b item) (inputOps b' item) := by
    unfold inputOps
    split
    · exact .ok ⟨View.admitsOp_constant _, trivial⟩
    · next name distinct arguments same =>
        rw [same] at known
        split
        · split
          · exact columnOps_yields fun name member => known name (List.mem_append_left _ member)
          · exact .error _
        · exact plain item _ known
    · exact plain item _ known
  induction items with
  | nil => exact .ok trivial
  | cons item rest ih =>
      have others := ih fun other member => known other (List.mem_cons_of_mem _ member)
      refine (input item (known item List.mem_cons_self)).bind fun column inside => ?_
      exact others.bind fun _ more => .ok ⟨by_admitted inside, more⟩

theorem grouping_follows {keys : List String} (reads : ∀ key ∈ keys, view.reads key) :
    Follow view (grouping keys) := by
  unfold grouping
  split
  · exact .cons (View.admitsOp_bare rfl) rfl trivial
  · exact .cons (View.admitsOp_bare rfl) rfl ⟨by_admitted ⟨View.admitsOp_select reads, trivial⟩,
      by_admitted ⟨View.admitsOp_bare rfl, trivial⟩, View.admitsOp_selectColumn _,
      View.admitsOp_bare rfl, trivial⟩

theorem resultOps_admitted {item : ReturnItem} (reads : view.reads item.column) :
    view.AdmitsOps (resultOps item) := by
  have selects := Admits.selectOne reads
  have first : view.AdmitsOps (resultOps.first item) :=
    ⟨View.admitsOp_bare rfl, View.admitsOp_limit _, selects, trivial⟩
  have reduction (name : String) {values : Ops} (inside : view.AdmitsOps values) :
      view.AdmitsOps (reduction name values) := by
    have then_ (kind : StepKind) (inner : kind.isEntry = false) (blind : kind.looksBack = false) :
        view.AdmitsOps (values ++ [.append kind [] inner]) :=
      View.admitsOps_append.mpr ⟨inside, View.admitsOp_bare blind, trivial⟩
    have orUnknown (kind : StepKind) (inner : kind.isEntry = false)
        (blind : kind.looksBack = false) :
        view.AdmitsOps (reduction.orUnknown values (.append kind [] inner)) := by
      refine ⟨View.admitsOp_nested trivial fun script member => ?_, trivial⟩
      rcases List.mem_cons.mp member with rfl | rest
      · exact then_ kind inner blind
      · cases List.mem_singleton.mp rest
        exact ⟨View.admitsOp_constant _, trivial⟩
    unfold Cypher.reduction
    split_ifs
    · exact then_ _ _ rfl
    · exact then_ _ _ rfl
    · exact then_ _ _ rfl
    · exact orUnknown _ _ rfl
    · exact orUnknown _ _ rfl
    · exact orUnknown _ _ rfl
  unfold resultOps
  split
  · exact ⟨View.admitsOp_bare rfl, View.admitsOp_bare rfl, trivial⟩
  · split
    · refine reduction _ (View.admitsOps_append.mpr ⟨?_, (distinctOps_follow _).1⟩)
      exact ⟨View.admitsOp_bare rfl, selects, View.admitsOp_is _, trivial⟩
    · exact first
  · exact first

theorem aggregatedRows_yield (knows : KnowsRows view b b' r) :
    Yields (Follow view) (aggregatedRows b r (r.items.map ReturnItem.column))
      (aggregatedRows b' r (r.items.map ReturnItem.column)) := by
  refine (inputs_yield knows.items).bind fun gathered inside => ?_
  refine (sortRows_yields knows.reads r.order).bind fun sorted last => .ok ?_
  have keys : ∀ key ∈ (r.items.filter fun item => !item.expression.isAggregate).map
      ReturnItem.column, view.reads key := by
    intro key member
    obtain ⟨item, listed, rfl⟩ := List.mem_map.mp member
    exact knows.columns item (List.mem_filter.mp listed).1
  have results : view.AdmitsOps (r.items.map fun item => .nested .by_ [.of (resultOps item)]) := by
    refine View.admitsOps_iff.mpr fun op member => ?_
    obtain ⟨item, listed, rfl⟩ := List.mem_map.mp member
    exact by_admitted (resultOps_admitted (knows.columns item listed))
  have grouped := (projects (r.items.map ReturnItem.column) inside).append (grouping_follows keys)
  exact ((grouped.append (projects _ results)).append (distinctOps_follow _)).append last

theorem windowOps_follow (r : ReturnClause) : Follow view (windowOps r) := by
  have skips : Follow view (r.skip.map fun n => .append .skip [.literal (.int n)]).toList := by
    cases r.skip with
    | none => exact .nil
    | some n => exact .cons (View.admitsOp_flat rfl (by simp [Slot.literal])) rfl trivial
  have limits : Follow view (r.limit.map .limit).toList := by
    cases r.limit with
    | none => exact .nil
    | some n => exact .cons (View.admitsOp_limit _) rfl trivial
  exact skips.append limits

theorem returnOps_yield (knows : KnowsRows view b b' r) :
    Yields (Follow view) (returnOps b r) (returnOps b' r) := by
  have windowed {rows : Ops} (follow : Follow view rows) : Follow view (rows ++ windowOps r) :=
    follow.append (windowOps_follow r)
  unfold returnOps
  dsimp only
  split
  · exact .error _
  · split
    · exact (aggregatedRows_yield knows).bind fun _ follow => .ok (windowed follow)
    · exact (plainRows_yield knows).bind fun _ follow => .ok (windowed follow)

theorem writeOps_admitted (single : Bool) (key : String) {value : Slot Script}
    (inside : view.AdmitsSlot .property value) : view.AdmitsOp (writeOps single key value) := by
  have label : view.AdmitsArgument .property (.label key) := View.admitsArgument_of_blind rfl _
  cases single with
  | true => exact ⟨trivial, trivial, label, inside, trivial⟩
  | false => exact ⟨trivial, label, inside, trivial⟩

theorem literal_admitted (v : Value) : view.AdmitsSlot .property (.literal v) := by
  have literal : view.AdmitsArgument .property (.literal v) := View.admitsArgument_of_blind rfl _
  exact literal

theorem writeItem_yields {item : SetItem} (owner : Knows view b b' item.owner)
    (knows : ∀ name ∈ item.value.names, Knows view b b' name) (single : Bool) :
    Yields (fun op => view.AdmitsOp op ∧ op.stands = true)
      (do
        let value ← match item.value.literal? with
          | some v => pure (.literal (literalValue v))
          | none => .builder <$> valueScript b item.value
        return .nested .sideEffect [.of [.select [item.owner], writeOps single item.key value]])
      (do
        let value ← match item.value.literal? with
          | some v => pure (.literal (literalValue v))
          | none => .builder <$> valueScript b' item.value
        return .nested .sideEffect
          [.of [.select [item.owner], writeOps single item.key value]]) := by
  have written {value : Slot Script} (inside : view.AdmitsSlot .property value) :
      view.AdmitsOp
        (.nested .sideEffect [.of [.select [item.owner], writeOps single item.key value]]) :=
    View.admitsOp_nested trivial fun _ member => List.mem_singleton.mp member ▸
      ⟨Admits.selectOne owner.reads, writeOps_admitted single item.key inside, trivial⟩
  cases item.value.literal? with
  | some v => exact .ok ⟨written (literal_admitted _), rfl⟩
  | none =>
      have value : Yields (view.AdmitsSlot .property) (.builder <$> valueScript b item.value)
          (.builder <$> valueScript b' item.value) :=
        (valueScript_yields knows).map fun _ inside => inside
      exact value.bind fun _ inside => .ok ⟨written inside, rfl⟩

theorem setOps_yield {item : SetItem} (owner : Knows view b b' item.owner)
    (knows : ∀ name ∈ item.value.names, Knows view b b' name) :
    Yields (fun op => view.AdmitsOp op ∧ op.stands = true) (setOps b item) (setOps b' item) := by
  refine (kindOf_yields owner).bind fun kind _ => ?_
  cases kind with
  | node => exact writeItem_yields owner knows true
  | relationship => exact writeItem_yields owner knows false
  | relationships => exact .error _

/-- The names in a clause that sets properties. -/
def namesSet (items : List SetItem) : List String :=
  items.flatMap fun item => item.owner :: item.value.names

theorem setAll_yields {items : List SetItem}
    (knows : ∀ name ∈ namesSet items, Knows view b b' name) :
    Yields (Follow view) (setAll b items) (setAll b' items) := by
  induction items with
  | nil => exact .ok .nil
  | cons item rest ih =>
      have others := ih fun name member => knows name (List.mem_append_right _ member)
      have known (name : String) (member : name ∈ item.owner :: item.value.names) :
          Knows view b b' name := knows name (List.mem_append_left _ member)
      have first := setOps_yield (known _ List.mem_cons_self) fun name member =>
        known name (List.mem_cons_of_mem _ member)
      exact first.bind fun _ one => others.bind fun _ more => .ok (.cons one.1 one.2 more.1)

theorem deleteOps_yield {d : DeleteClause} (knows : ∀ name ∈ d.names, Knows view b b' name) :
    Yields (Follow view) (deleteOps b d) (deleteOps b' d) := by
  have kinds (names : List String) (knows : ∀ name ∈ names, Knows view b b' name) :
      Yields (fun targets => ∀ target ∈ targets, view.reads target.2) (kindsOf b names)
        (kindsOf b' names) := by
    induction names with
    | nil => exact .ok nofun
    | cons name rest ih =>
        have known := knows name List.mem_cons_self
        have others := ih fun other member => knows other (List.mem_cons_of_mem _ member)
        refine (kindOf_yields known).bind fun kind _ => others.bind fun _ more => ?_
        exact .ok (List.forall_mem_cons.mpr ⟨known.reads, more⟩)
  have removes {target : NameKind × String} (reads : view.reads target.2) :
      view.AdmitsOp (removal target) ∧ (removal target).stands = true := by
    obtain ⟨kind, name⟩ := target
    have one : view.AdmitsOp (.nested .sideEffect [.of [.select [name], .append .drop []]]) :=
      View.admitsOp_nested trivial fun _ member => List.mem_singleton.mp member ▸
        ⟨Admits.selectOne reads, View.admitsOp_bare rfl, trivial⟩
    cases kind with
    | relationships =>
        refine ⟨View.admitsOp_nested trivial fun _ member => List.mem_singleton.mp member ▸ ?_, rfl⟩
        exact ⟨View.admitsOp_selectLabel _ reads, View.admitsOp_bare rfl, View.admitsOp_bare rfl,
          trivial⟩
    | _ => exact ⟨one, rfl⟩
  have removesAll (targets : List (NameKind × String))
      (reads : ∀ target ∈ targets, view.reads target.2) : Follow view (targets.map removal) := by
    induction targets with
    | nil => exact .nil
    | cons target rest ih =>
        have one := removes (reads target List.mem_cons_self)
        have others := ih fun other member => reads other (List.mem_cons_of_mem _ member)
        exact .cons one.1 one.2 others.1
  refine (kinds d.names knows).bind fun targets reads => .ok (removesAll _ fun target member => ?_)
  change target ∈ (targets.partition _).2 ++ (targets.partition _).1 at member
  rw [List.partition_eq_filter_filter] at member
  rcases List.mem_append.mp member with other | node
  · exact reads target (List.mem_filter.mp other).1
  · exact reads target (List.mem_filter.mp node).1

end Cypher

end PropertyGraph
