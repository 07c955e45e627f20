import PropertyGraph.Proofs.Cypher.QuerySoundness
import PropertyGraph.Proofs.Cypher.ScriptMaterial

/-!
What scripts of whole queries are made of, clause by clause, and so their programs: the literals of
the query, and steps that change the graph in CREATE, SET and DELETE only.
-/

namespace PropertyGraph.Cypher

open Script Scripting

variable {m : Material} {b : Bindings} {names : List String}

theorem builder_made {script : Except CompileFault Script} (made : Returns (Script.Made m) script) :
    Returns (SlotMade m) (Slot.builder <$> script) :=
  made.map fun _ made => made

section Changes

variable (writes : m.writes)

include writes

theorem writeOps_made (single : Bool) (key : String) {value : Slot Script}
    (made : SlotMade m value) : OpMade m (writeOps single key value) := by
  cases single with
  | true => exact ⟨.inr writes, nofun, Material.names_label key, made, trivial⟩
  | false => exact ⟨.inr writes, Material.names_label key, made, trivial⟩

theorem newProperties_made (single : Bool) {properties : List (String × Expression)}
    (made : AreMade m properties) : Writes (OpsMade m) (newProperties single properties) := by
  induction properties with
  | nil => exact .pure .nil
  | cons entry rest ih =>
      obtain ⟨key, e⟩ := entry
      obtain ⟨first, others⟩ := List.forall_mem_cons.mp made
      unfold newProperties
      cases found : e.literal? with
      | none =>
          exact (value_made first).bind fun script written => (ih others).bind fun _ more =>
            .pure (.cons (writeOps_made writes single key written) more)
      | some v =>
          refine (ih others).bind fun _ more => .pure (.append ?_ more)
          split
          · exact .nil
          · exact .one (writeOps_made writes single key (first.of_literal? found))

theorem addVertexOp_made (labels : List String) : Returns (OpMade m) (addVertexOp labels) := by
  unfold addVertexOp
  split
  · exact .ok writes
  · exact .ok writes
  · exact .error _

theorem createNode_made {node : NodePattern} (made : AreMade m node.properties) :
    Writes (fun made => OpsMade m made.2) (createNode node) := by
  unfold createNode
  refine .after_ fun bound => ?_
  cases bound with
  | true =>
      rw [if_pos rfl]
      dsimp only
      split
      · exact .after_ fun _ => .pure .nil
      · exact .refused _ _
  | false =>
      exact (Writes.of_except (addVertexOp_made writes _)).bind fun _ add => .after_ fun _ =>
        (newProperties_made writes true made).bind fun _ written => .after_ fun label =>
        .after_ fun _ => .pure ((OpsMade.cons add written).append (.one (.labelled rfl)))

theorem createNodes_made {nodes : List NodePattern}
    (made : ∀ node ∈ nodes, AreMade m node.properties) :
    Writes (fun made => OpsMade m made.2) (createNodes nodes) := by
  induction nodes with
  | nil => exact .pure .nil
  | cons node rest ih =>
      obtain ⟨first, others⟩ := List.forall_mem_cons.mp made
      exact (createNode_made writes first).bind fun _ one => (ih others).bind fun _ more =>
        .pure (one.append more)

theorem createRelationship_made (left right : String) {r : RelationshipPattern}
    (made : AreMade m r.properties) :
    Writes (OpsMade m) (createRelationship left right r) := by
  unfold createRelationship
  cases r.direction with
  | both => exact .refused _ _
  | outgoing | incoming =>
      refine .after_ fun ends => ?_
      split
      · refine .after_ fun bound => ?_
        dsimp only
        split
        · exact .refused _ _
        · exact (newProperties_made writes false made).bind fun _ written =>
            (bind?_made _ _).bind fun _ label =>
            .pure (.append (.append (.cons ⟨.inr writes, labelSlots_made _⟩ (.cons (.labelled rfl)
              (.one (.labelled rfl)))) written) label)
      · exact .throw _

theorem createChain_made (labels : List String)
    {chain : List (RelationshipPattern × NodePattern)}
    (made : ∀ link ∈ chain, AreMade m link.1.properties ∧ AreMade m link.2.properties) :
    Writes (OpsMade m) (createChain labels chain) := by
  fun_induction createChain labels chain with
  | case1 left right labels r node rest ih =>
      obtain ⟨first, others⟩ := List.forall_mem_cons.mp made
      exact (createRelationship_made writes left right first.1).append (ih others)
  | case2 => exact .pure .nil

theorem createPathNodes_made {paths : List PathPattern} (made : PathsMade m paths) :
    Writes (fun made => (∀ labelled ∈ made.1, labelled.2 ∈ paths) ∧ OpsMade m made.2)
      (createPathNodes paths) := by
  induction paths with
  | nil => exact .pure ⟨List.forall_mem_nil _, .nil⟩
  | cons p rest ih =>
      obtain ⟨first, others⟩ := List.forall_mem_cons.mp made
      have nodes : ∀ node ∈ p.start :: p.chain.map (·.2), AreMade m node.properties :=
        List.forall_mem_cons.mpr ⟨areMade_of_paired first.start.properties,
          List.forall_mem_map.mpr fun link member => (links_made first link member).2⟩
      exact (createNodes_made writes nodes).bind fun _ one => (ih others).bind fun _ more =>
        .pure ⟨List.forall_mem_cons.mpr ⟨List.mem_cons_self, fun labelled member =>
          List.mem_cons_of_mem _ (more.1 labelled member)⟩, one.append more.2⟩

theorem createPathEdges_made {labelled : List (List String × PathPattern)}
    (made : ∀ one ∈ labelled, one.2.Paired (Expression.SameWith m.Takes) one.2) :
    Writes (OpsMade m) (createPathEdges labelled) := by
  induction labelled with
  | nil => exact .pure .nil
  | cons one rest ih =>
      obtain ⟨first, others⟩ := List.forall_mem_cons.mp made
      exact (createChain_made writes one.1 (links_made first)).append (ih others)

theorem createPaths_made {paths : List PathPattern} (literals : PathsMade m paths) :
    Writes (OpsMade m) (createPaths paths) :=
  (createPathNodes_made writes literals).bind fun _ made =>
    (createPathEdges_made writes fun one member => literals _ (made.1 one member)).bind
      fun _ edges => .pure (made.2.append edges)

theorem setOps_made {item : SetItem} (made : item.value.Literals m.Takes) :
    Returns (OpMade m) (setOps b item) := by
  have written (single : Bool) {value : Slot Script} (given : SlotMade m value) :
      OpMade m (.nested .sideEffect
        [.of [.select [item.owner], writeOps single item.key value]]) :=
    .nested_one rfl (.cons (.select _) (.one (writeOps_made writes single item.key given)))
  unfold setOps
  refine .after_ fun kind => ?_
  cases kind with
  | relationships => exact .error _
  | node | relationship =>
      refine .after_ fun single => ?_
      dsimp only
      split
      · next v found => exact .ok (written single (literalValue_made (made.of_literal? found)))
      · exact (builder_made (valueScript_made made)).bind fun _ given =>
          .pure (written single given)

theorem setAll_made {items : List SetItem}
    (made : ∀ item ∈ items, item.value.Literals m.Takes) :
    Returns (OpsMade m) (setAll b items) := by
  induction items with
  | nil => exact .ok .nil
  | cons item rest ih =>
      obtain ⟨first, others⟩ := List.forall_mem_cons.mp made
      exact (setOps_made writes first).bind fun _ one => (ih others).bind fun _ more =>
        .pure (.cons one more)

theorem removal_made (target : NameKind × String) : OpMade m (removal target) := by
  unfold removal
  split
  · exact .nested_one rfl
      (.cons (.selectLabel _ _) (.cons (.bare rfl) (.one ⟨.inr writes, trivial⟩)))
  · exact .nested_one rfl (.cons (.select _) (.one ⟨.inr writes, trivial⟩))

theorem deleteOps_made (d : DeleteClause) : Returns (OpsMade m) (deleteOps b d) :=
  .after_ fun _ => .pure (.map _ (removal_made writes))

end Changes

theorem relationshipColumn_made : OpsMade m relationshipColumn :=
  .cons (.project _) (.cons (.nested_one rfl (.one (.literal rfl (Material.takes_bool true))))
    (.cons (.nested_one rfl (.cons (.bare rfl) (.one (.bare rfl))))
      (.one (.nested_one rfl (.cons (.bare rfl) (.one (.bare rfl)))))))

theorem columnOps_made {e : Expression} (made : e.Literals m.Takes) :
    Returns (OpsMade m) (columnOps b e) := by
  unfold columnOps
  split
  · refine .after_ fun kind => ?_
    cases kind with
    | node => exact .pure (.cons (.select _) (.one (.literal rfl (Material.takes_bool true))))
    | relationship => exact .pure (.cons (.select _) relationshipColumn_made)
    | relationships =>
        exact .pure (.append (.append (.cons (.selectLabel _ _) (.one (.bare rfl)))
          relationshipColumn_made) (.one (.bare rfl)))
  · exact valueOps_made _ made

/-- The literals of columns are of the material. -/
abbrev ItemsMade (m : Material) (items : List ReturnItem) : Prop :=
  ∀ item ∈ items, item.expression.Literals m.Takes

theorem resolveAlias_made {items : List ReturnItem} {e : Expression} (all : ItemsMade m items)
    (made : e.Literals m.Takes) : (resolveAlias items e).Literals m.Takes := by
  unfold resolveAlias
  split
  · split
    · next found => exact all _ (List.mem_of_find?_eq_some found)
    · exact made
  · exact made

theorem sortKeys_made {items : List ReturnItem} {order : List SortItem} (all : ItemsMade m items)
    (made : ∀ item ∈ order, item.expression.Literals m.Takes) :
    Returns (OpsMade m) (sortKeys b items order) := by
  induction order with
  | nil => exact .ok .nil
  | cons item rest ih =>
      obtain ⟨first, others⟩ := List.forall_mem_cons.mp made
      exact (valueScript_made (resolveAlias_made all first)).bind fun _ key =>
        (ih others).bind fun _ more => .pure (.cons (.byOrder key _) more)

theorem columnSortKeys_made (order : List SortItem) :
    Returns (OpsMade m) (columnSortKeys names order) := by
  induction order with
  | nil => exact .ok .nil
  | cons item rest ih =>
      have key (column : String) : (Script.of [.select [column]]).Made m := .one (.select _)
      exact .after_ fun column => ih.bind fun _ more => .pure (.cons (.byOrder (key column) _) more)

theorem sortRows_made (order : List SortItem) : Returns (OpsMade m) (sortRows names order) := by
  unfold sortRows
  split
  · exact .ok .nil
  · exact (columnSortKeys_made order).bind fun _ keys => .pure (.cons (.bare rfl) keys)

theorem distinctOps_made (distinct : Bool) : OpsMade m (distinctOps distinct) := by
  cases distinct
  · exact .nil
  · exact .one (.labelled rfl)

theorem byEach_made {compile : ReturnItem → Except CompileFault Ops} {items : List ReturnItem}
    (each : ∀ item ∈ items, Returns (OpsMade m) (compile item)) :
    Returns (OpsMade m) (byEach compile items) := by
  induction items with
  | nil => exact .ok .nil
  | cons item rest ih =>
      obtain ⟨first, others⟩ := List.forall_mem_cons.mp each
      exact first.bind fun _ inside => (ih others).bind fun _ more =>
        .pure (.cons (.nested_one rfl inside) more)

/-- The literals of a clause that returns rows are of the material. -/
structure ReturnMade (m : Material) (r : ReturnClause) : Prop where
  items : ItemsMade m r.items
  order : ∀ item ∈ r.order, item.expression.Literals m.Takes

variable {r : ReturnClause}

theorem plainRows_made (made : ReturnMade m r) : Returns (OpsMade m) (plainRows b r names) := by
  rw [plainRows_eq]
  have before : Returns (OpsMade m) (sortedBefore b r) := by
    unfold sortedBefore
    split
    · exact .ok .nil
    · exact (sortKeys_made made.items made.order).bind fun _ keys => .pure (.cons (.bare rfl) keys)
  have after : Returns (OpsMade m) (sortedAfter names r) := by
    unfold sortedAfter
    split
    · exact sortRows_made _
    · exact .ok .nil
  refine before.bind fun _ first => ?_
  rw [columns_eq]
  exact (byEach_made fun item member => columnOps_made (made.items item member)).bind
    fun _ columns => after.bind fun _ last =>
    .pure (((first.append (.cons (.project _) columns)).append (distinctOps_made _)).append last)

theorem inputOps_made {item : ReturnItem} (made : item.expression.Literals m.Takes) :
    Returns (OpsMade m) (inputOps b item) := by
  have plain {e : Expression} (made : e.Literals m.Takes) :
      Returns (OpsMade m) (inputOps.plain b item e) := by
    unfold inputOps.plain
    split
    · exact .error _
    · exact columnOps_made made
  unfold inputOps
  generalize item.expression = e at made ⊢
  split
  · exact .ok (.one (.constant (Material.takes_int 1)))
  · split
    · split
      · cases made with
        | call _ _ all => exact columnOps_made (all _ List.mem_cons_self)
      · exact .error _
    · exact plain made
  · exact plain made

theorem grouping_made (keys : List String) : OpsMade m (grouping keys) := by
  unfold grouping
  split
  · exact .one (.bare rfl)
  · exact .cons (.bare rfl) (.cons (.nested_one rfl (.one (.select _)))
      (.cons (.nested_one rfl (.one (.bare rfl))) (.cons (.selectColumn _) (.one (.bare rfl)))))

theorem reduction_made (name : String) {inside : Ops} (made : OpsMade m inside) :
    OpsMade m (reduction name inside) := by
  have orUnknown {op : Op Script} (last : OpMade m op) :
      OpsMade m (reduction.orUnknown inside op) :=
    .one (.nested_two rfl (made.append (.one last)) (.one (.constant unknown_made)))
  unfold reduction
  repeat' split
  · exact made.append (.one (.bare rfl))
  · exact made.append (.one (.bare rfl))
  · exact made.append (.one (.bare rfl))
  all_goals exact orUnknown (.bare rfl)

theorem resultOps_made (item : ReturnItem) : OpsMade m (resultOps item) := by
  have first : OpsMade m (resultOps.first item) :=
    .cons (.bare rfl) (.cons (.limit 1) (.one (.select _)))
  unfold resultOps
  split
  · exact .cons (.bare rfl) (.one (.bare rfl))
  · split
    · exact reduction_made _ (.append (.cons (.bare rfl) (.cons (.select _) (.one isKnown_made)))
        (distinctOps_made _))
    · exact first
  · exact first

theorem aggregatedRows_made (made : ReturnMade m r) :
    Returns (OpsMade m) (aggregatedRows b r names) := by
  unfold aggregatedRows
  rw [inputs_eq]
  exact (byEach_made fun item member => inputOps_made (made.items item member)).bind
    fun _ gathered => (sortRows_made r.order).bind fun _ sorted =>
    .pure (.append (.append (.append (.append (.cons (.project _) gathered) (grouping_made _))
      (.cons (.project _) (.map _ fun item => .nested_one rfl (resultOps_made item))))
      (distinctOps_made _)) sorted)

theorem windowOps_made (r : ReturnClause) : OpsMade m (windowOps r) := by
  refine .append ?_ ?_
  · cases r.skip
    · exact .nil
    · exact .one (.literal rfl (Material.takes_int _))
  · cases r.limit
    · exact .nil
    · exact .one (.limit _)

theorem returnOps_made (made : ReturnMade m r) : Returns (OpsMade m) (returnOps b r) := by
  unfold returnOps
  dsimp only
  split
  · exact .error _
  · split
    · exact (aggregatedRows_made made).bind fun _ rows => .pure (rows.append (windowOps_made r))
    · exact (plainRows_made made).bind fun _ rows => .pure (rows.append (windowOps_made r))

theorem returnedOps_made {r : Option ReturnClause} (made : ∀ clause ∈ r, ReturnMade m clause) :
    Returns (OpsMade m) (returnedOps b r) := by
  cases r with
  | none => exact .ok (.cons (.bare rfl) (.one (.limit 0)))
  | some r => exact returnOps_made (made r rfl)

theorem startOps_made : Writes (OpsMade m) startOps := by
  refine .after_ fun scope => ?_
  split
  · exact .pure .nil
  · exact .after_ fun _ => .pure (.one (.literal rfl (Material.takes_string _)))

theorem returnMade_of_paired {r : ReturnClause}
    (paired : r.Paired (Expression.SameWith m.Takes) r) : ReturnMade m r where
  items item member := (List.forall₂_same.mp paired.items item member).1.2
  order item member := (List.forall₂_same.mp paired.order item member).1.2

/-- The script of a query is made of its literals, and of changes only if it asks for some. -/
theorem queryOps_made {q : Query} (made : q.Literals m.Takes)
    (changes : m.writes ∨ q.create = [] ∧ q.set = [] ∧ q.delete = none) :
    Writes (OpsMade m) (queryOps q) := by
  obtain ⟨found, created, set, -, return_⟩ := made
  have creates : Writes (OpsMade m) (createPaths q.create) := by
    rcases changes with writes | ⟨none, -, -⟩
    · exact createPaths_made writes (List.forall₂_same.mp created)
    · rw [none]
      exact fun _ => .ok .nil
  have sets (b : Bindings) : Returns (OpsMade m) (setAll b q.set) := by
    rcases changes with writes | ⟨-, none, -⟩
    · exact setAll_made writes fun item member => (List.forall₂_same.mp set item member).value.2
    · rw [none]
      exact .ok .nil
  have deletes (b : Bindings) :
      Returns (OpsMade m) ((q.delete.map (deleteOps b)).getD (.ok [])) := by
    cases asked : q.delete with
    | none => exact .ok .nil
    | some d =>
        rcases changes with writes | ⟨-, -, none⟩
        · exact deleteOps_made writes d
        · rw [none] at asked
          cases asked
  have returns (b : Bindings) : Returns (OpsMade m) (returnedOps b q.return_) := by
    generalize q.return_ = clause at return_
    cases return_ with
    | none => exact returnedOps_made nofun
    | some same =>
        refine returnedOps_made fun clause given => ?_
        cases given
        exact returnMade_of_paired same
  exact (matchClauses_made (List.forall₂_same.mp found)).bind fun _ finding =>
    creates.bind fun _ creating => startOps_made.bind fun _ starting => .after_ fun scope =>
    (Writes.of_except (sets _)).bind fun _ setting =>
    (Writes.of_except (deletes _)).bind fun _ deleting =>
    (Writes.of_except (returns _)).bind fun _ returning =>
    .pure (((((finding.append creating).append starting).append setting).append deleting).append
      returning)

end PropertyGraph.Cypher

namespace PropertyGraph

/-- The steps of a program and the contents of their arguments, at any depth, are of the material. -/
structure Program.Made (m : Material) (p : Program) : Prop where
  kinds : ∀ kind ∈ p.kinds, m.Allows kind
  contents : ∀ c ∈ p.contents, m.holds c

theorem Query.program_made {m : Material} {q : Query} (made : q.Literals m.Takes)
    (changes : m.writes ∨ q.create = [] ∧ q.set = [] ∧ q.delete = none) :
    Returns (Program.Made m) q.program := by
  intro p recorded
  obtain ⟨recorder, built, same⟩ := bind_eq_ok.mp recorded
  cases same
  obtain ⟨operations, scope, written, performed⟩ := Query.buildOn_ok built
  have made : Script.OpsMade m operations := Cypher.queryOps_made made changes _ _ written
  refine ⟨?_, List.forall_mem_cons.mpr ⟨m.length _, ?_⟩⟩
  · rw [Script.performAll_kinds operations performed]
    exact Script.opsKinds_made operations made
  · exact Script.performAll_recorded operations made performed (List.forall_mem_nil _)

end PropertyGraph
