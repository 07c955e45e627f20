import PropertyGraph.Cypher.Compiler
import PropertyGraph.Proofs.Cypher.Agreement

/-!
Scripts of clauses whose expressions correspond. The names that a clause declares do not depend on
its expressions, so the scripts are written in the same scopes, and agree clause by clause.
-/

namespace PropertyGraph.Cypher

variable {before after : Properties} {α β γ δ : Type}

/-- In every scope both write related things, and leave the same scope, or fail alike. -/
def WritesAlike (R : α → β → Prop) (p : Scripting α) (q : Scripting β) : Prop :=
  ∀ scope, Alike (fun a b => R a.1 b.1 ∧ a.2 = b.2) (p.run scope) (q.run scope)

namespace WritesAlike

variable {R : α → β → Prop} {S : γ → δ → Prop} {p : Scripting α} {q : Scripting β}

theorem pure {a : α} {b : β} (related : R a b) : WritesAlike R (Pure.pure a) (Pure.pure b) :=
  fun _ => .ok ⟨related, rfl⟩

theorem throw (fault : CompileFault) :
    WritesAlike R (MonadExcept.throw fault) (MonadExcept.throw fault) :=
  fun _ => .error fault

theorem refused (fault : CompileFault) (next : α → Scripting γ) (next' : β → Scripting δ) :
    WritesAlike S (MonadExcept.throw fault >>= next) (MonadExcept.throw fault >>= next') :=
  fun _ => .error fault

theorem bind {next : α → Scripting γ} {next' : β → Scripting δ} (first : WritesAlike R p q)
    (others : ∀ a b, R a b → WritesAlike S (next a) (next' b)) :
    WritesAlike S (p >>= next) (q >>= next') := by
  intro scope
  rw [StateT.run_bind, StateT.run_bind]
  refine (first scope).bind fun found found' together => ?_
  rw [together.2]
  exact others _ _ together.1 _

theorem same {R : α → α → Prop} (refl : ∀ a, R a a) (p : Scripting α) : WritesAlike R p p :=
  fun _ => .refl (fun _ => ⟨refl _, rfl⟩) _

theorem after_ (p : Scripting α) {next : α → Scripting γ} {next' : α → Scripting δ}
    (others : ∀ a, WritesAlike S (next a) (next' a)) :
    WritesAlike S (p >>= next) (p >>= next') :=
  (same (R := Eq) (fun _ => rfl) p).bind fun a _ equal => equal ▸ others a

theorem of_except {result : Except CompileFault α} {result' : Except CompileFault β}
    (alike : Alike R result result') :
    WritesAlike R (liftM result : Scripting α) (liftM result' : Scripting β) := by
  intro scope
  cases alike with
  | ok same => exact .ok ⟨same, rfl⟩
  | error fault => exact .error fault

theorem append {first first' second second' : Scripting Ops}
    (one : WritesAlike (OpsAgree before after) first first')
    (two : WritesAlike (OpsAgree before after) second second') :
    WritesAlike (OpsAgree before after) (do return (← first) ++ (← second))
      (do return (← first') ++ (← second')) :=
  one.bind fun _ _ agree => two.bind fun _ _ others => pure (agree.append others)

end WritesAlike

open Scripting

section Matches

theorem value_alike {e e' : Expression} (same : e.Corresponds before after e') :
    WritesAlike (ScriptAgrees before after) (value e) (value e') :=
  .after_ _ fun _ => .of_except (valueScript_agrees same)

theorem propertyFilter_alike (key : String) {e e' : Expression}
    (same : e.Corresponds before after e') :
    WritesAlike (OpAgrees before after) (propertyFilter key e) (propertyFilter key e') := by
  have literals := same.literal?
  unfold propertyFilter
  generalize e.literal? = found, e'.literal? = found' at literals
  cases literals with
  | none =>
      refine (value_alike same).bind fun _ _ script => .pure (.wrapped _ (.cons ?_ (.refl _)) _)
      exact .nested _ (.cons (.of (.refl _)) (.cons script .nil)) _
  | some values => exact .pure (.has key (.eq values))

theorem propertyFilters_alike {properties properties' : List (String × Expression)}
    (same : EntriesPaired (Expression.Corresponds before after) properties properties') :
    WritesAlike (OpsAgree before after) (propertyFilters properties)
      (propertyFilters properties') := by
  unfold propertyFilters
  induction same with
  | nil => exact .pure (.refl [])
  | @cons entry entry' _ _ first _ ih =>
      obtain ⟨key, e⟩ := entry
      obtain ⟨key', e'⟩ := entry'
      obtain ⟨rfl, same⟩ := first
      rw [List.mapM_cons, List.mapM_cons]
      exact (propertyFilter_alike _ same).bind fun _ _ first => ih.bind fun _ _ rest =>
        .pure (.cons first rest)

theorem nodeConstraints_alike {n m : NodePattern}
    (same : n.Paired (Expression.Corresponds before after) m) :
    WritesAlike (OpsAgree before after) (nodeConstraints n) (nodeConstraints m) := by
  unfold nodeConstraints
  rw [same.labels]
  exact (propertyFilters_alike same.properties).bind fun _ _ filters =>
    .pure ((OpsAgree.refl _).append filters)

theorem pathLoop_agree {body body' : Ops} (same : OpsAgree before after body body')
    (range : PathLength) : OpsAgree before after (pathLoop body range) (pathLoop body' range) := by
  unfold pathLoop
  refine .append ?_ (.refl _)
  split
  · exact .then_ _ (.one (.wrapped _ same _))
  · exact .cons (.wrapped _ same _) (.refl _)

theorem matchRelationship_alike {r s : RelationshipPattern}
    (same : r.Paired (Expression.Corresponds before after) s) :
    WritesAlike (OpsAgree before after) (matchRelationship r) (matchRelationship s) := by
  obtain ⟨name, types, properties, direction, length⟩ := same
  have filters := propertyFilters_alike properties
  unfold matchRelationship
  rw [name, types, direction, length]
  refine .after_ _ fun bound => ?_
  cases s.length with
  | none =>
      dsimp only
      split
      · exact .refused _ _ _
      · exact filters.bind fun _ _ agree => .after_ _ fun _ =>
          .pure (.then_ _ ((agree.append (.refl _)).append (.refl _)))
  | some range =>
      have looped : WritesAlike (OpsAgree before after)
          (do
            let filters ← propertyFilters r.properties
            return pathLoop (edgeStep s.direction s.types :: filters ++ labelOps s.name
              ++ [vertexStep s.direction, .append .simplePath []]) range)
          (do
            let filters ← propertyFilters s.properties
            return pathLoop (edgeStep s.direction s.types :: filters ++ labelOps s.name
              ++ [vertexStep s.direction, .append .simplePath []]) range) :=
        filters.bind fun _ _ agree => .pure (pathLoop_agree
          (.then_ _ ((agree.append (.refl _)).append (.refl _))) _)
      cases bound with
      | true => exact .refused _ _ _
      | false =>
          refine .after_ _ fun _ => ?_
          split
          · exact .pure (.refl [])
          · exact looped

/-- What a node at the start or the end of a path becomes, if its name is bound already. -/
theorem matchStart_alike {n m : NodePattern}
    (same : n.Paired (Expression.Corresponds before after) m) :
    WritesAlike (OpsAgree before after) (matchStart n) (matchStart m) := by
  have constraints := nodeConstraints_alike same
  have fresh : WritesAlike (OpsAgree before after) (matchStart.fresh n) (matchStart.fresh m) := by
    unfold matchStart.fresh
    rw [same.name]
    exact .after_ _ fun _ => constraints.bind fun _ _ agree => .after_ _ fun _ =>
      .pure (.then_ _ (agree.append (.refl _)))
  unfold matchStart
  rw [same.name]
  split
  · refine .after_ _ fun bound => ?_
    split
    · exact .after_ _ fun _ => constraints.bind fun _ _ agree => .pure (.then_ _ agree)
    · exact fresh
  · exact fresh

theorem matchEnd_alike {n m : NodePattern}
    (same : n.Paired (Expression.Corresponds before after) m) :
    WritesAlike (OpsAgree before after) (matchEnd n) (matchEnd m) := by
  have constraints := nodeConstraints_alike same
  have fresh : WritesAlike (OpsAgree before after) (matchEnd.fresh n) (matchEnd.fresh m) := by
    unfold matchEnd.fresh
    rw [same.name]
    exact constraints.bind fun _ _ agree => .after_ _ fun _ => .pure (agree.append (.refl _))
  unfold matchEnd
  rw [same.name]
  split
  · refine .after_ _ fun bound => ?_
    split
    · exact .after_ _ fun _ => constraints.bind fun _ _ agree => .pure (agree.append (.refl _))
    · exact fresh
  · exact fresh

theorem matchChain_alike {links others : List (RelationshipPattern × NodePattern)}
    (same : List.Forall₂ (LinkPaired (Expression.Corresponds before after)) links others) :
    WritesAlike (OpsAgree before after) (matchChain links) (matchChain others) := by
  induction same with
  | nil => exact .pure (.refl [])
  | cons first _ ih =>
      exact (matchRelationship_alike first.1).bind fun _ _ edge =>
        (matchEnd_alike first.2).bind fun _ _ vertex => ih.bind fun _ _ rest =>
        .pure ((edge.append vertex).append rest)

theorem matchPaths_alike {paths others : List PathPattern}
    (same : List.Forall₂ (PathPattern.Paired (Expression.Corresponds before after)) paths others) :
    WritesAlike (OpsAgree before after) (matchPaths paths) (matchPaths others) := by
  induction same with
  | nil => exact .pure (.refl [])
  | cons first _ ih =>
      have path := (matchStart_alike first.start).append (matchChain_alike first.chain)
      exact path.append ih

theorem matchClauses_alike {clauses others : List MatchClause}
    (same : List.Forall₂ (MatchClause.Paired (Expression.Corresponds before after))
      clauses others) :
    WritesAlike (OpsAgree before after) (matchClauses clauses) (matchClauses others) := by
  induction same with
  | nil => exact .pure (.refl [])
  | @cons m n _ _ first _ ih =>
      refine WritesAlike.append ?_ ih
      obtain ⟨patterns, condition⟩ := first
      have paths := matchPaths_alike patterns
      unfold matchClause
      generalize m.condition = found, n.condition = found' at condition
      cases condition with
      | none => exact paths.bind fun _ _ agree => .pure agree
      | some same =>
          exact paths.bind fun _ _ agree => .after_ _ fun _ =>
            (WritesAlike.of_except (conditionScript_agrees same)).bind fun _ _ script =>
              .pure (agree.append (.one (.nested _ (.cons script .nil) _)))

end Matches

section Writes

theorem writeOps_agrees (single : Bool) (key : String) {x y : Slot Script}
    (same : SlotAgrees before after x y) :
    OpAgrees before after (writeOps single key x) (writeOps single key y) := by
  have label : SlotAgrees before after (.label key) (.label key) := Script.resolveOne_agrees _
  cases single with
  | true => exact .append _ (.cons (Script.resolveOne_agrees _) (.cons label (.cons same .nil))) _
  | false => exact .append _ (.cons label (.cons same .nil)) _

theorem newProperties_alike (single : Bool) {properties properties' : List (String × Expression)}
    (same : EntriesPaired (Expression.Corresponds before after) properties properties') :
    WritesAlike (OpsAgree before after) (newProperties single properties)
      (newProperties single properties') := by
  induction same with
  | nil => exact .pure (.refl [])
  | @cons entry entry' _ _ first _ ih =>
      obtain ⟨key, e⟩ := entry
      obtain ⟨key', e'⟩ := entry'
      obtain ⟨rfl, same⟩ := first
      have literals := same.literal?
      unfold newProperties
      dsimp only at literals ⊢
      generalize e.literal? = found, e'.literal? = found' at literals
      cases literals with
      | none =>
          exact (value_alike same).bind fun _ _ script => ih.bind fun _ _ rest =>
            .pure (.cons (writeOps_agrees single _ (.builder script)) rest)
      | @some v w values =>
          refine ih.bind fun _ _ rest => .pure (.append ?_ rest)
          rw [values.isNull_eq]
          split
          · exact .refl []
          · exact .one (writeOps_agrees single _ (.literal values))

def LabelledAgree (before after : Properties) (a b : String × Ops) : Prop :=
  a.1 = b.1 ∧ OpsAgree before after a.2 b.2

theorem createNode_alike {n m : NodePattern}
    (same : n.Paired (Expression.Corresponds before after) m) :
    WritesAlike (LabelledAgree before after) (createNode n) (createNode m) := by
  obtain ⟨name, labels, properties⟩ := same
  have empty : n.properties.isEmpty = m.properties.isEmpty := isEmpty_of_paired properties
  unfold createNode
  rw [name, labels, empty]
  refine .after_ _ fun bound => ?_
  cases bound with
  | true =>
      rw [if_pos rfl, if_pos rfl]
      exact .same (fun _ => ⟨rfl, .refl _⟩) _
  | false =>
      exact .after_ _ fun add => .after_ _ fun _ =>
        (newProperties_alike true properties).bind fun _ _ agree => .after_ _ fun label =>
        .after_ _ fun _ => .pure ⟨rfl, .then_ _ (agree.append (.refl _))⟩

theorem createNodes_alike {nodes others : List NodePattern}
    (same : List.Forall₂ (NodePattern.Paired (Expression.Corresponds before after)) nodes others) :
    WritesAlike (fun a b : List String × Ops => a.1 = b.1 ∧ OpsAgree before after a.2 b.2)
      (createNodes nodes) (createNodes others) := by
  induction same with
  | nil => exact .pure ⟨rfl, .refl []⟩
  | cons first _ ih =>
      refine (createNode_alike first).bind fun one one' agree => ih.bind fun rest rest' agrees => ?_
      exact .pure ⟨congrArg₂ _ agree.1 agrees.1, agree.2.append agrees.2⟩

theorem directed_alike (source target : String) (name : Option String) (types : List String)
    (length : Option PathLength) {properties others : List (String × Expression)}
    (same : EntriesPaired (Expression.Corresponds before after) properties others) :
    WritesAlike (OpsAgree before after)
      (match types, length with
      | [label], none => do
          if ← isBound name then throw (.declared (name.getD ""))
          let properties ← newProperties false properties
          let bound ← bind? name .relationship
          return [.labelled .addE [label], .labelled .from_ [source], .labelled .to_ [target]]
            ++ properties ++ bound
      | _, _ => throw .createWithoutType : Scripting Ops)
      (match types, length with
      | [label], none => do
          if ← isBound name then throw (.declared (name.getD ""))
          let properties ← newProperties false others
          let bound ← bind? name .relationship
          return [.labelled .addE [label], .labelled .from_ [source], .labelled .to_ [target]]
            ++ properties ++ bound
      | _, _ => throw .createWithoutType) := by
  split
  · refine .after_ _ fun bound => ?_
    split
    · exact .refused _ _ _
    · exact (newProperties_alike false same).bind fun _ _ agree => .after_ _ fun _ =>
        .pure (((OpsAgree.refl _).append agree).append (.refl _))
  · exact .throw _

theorem createRelationship_alike (left right : String) {r s : RelationshipPattern}
    (same : r.Paired (Expression.Corresponds before after) s) :
    WritesAlike (OpsAgree before after) (createRelationship left right r)
      (createRelationship left right s) := by
  obtain ⟨name, types, properties, direction, length⟩ := same
  unfold createRelationship
  rw [name, types, direction, length]
  cases s.direction with
  | outgoing => exact directed_alike left right _ _ _ properties
  | incoming => exact directed_alike right left _ _ _ properties
  | both => exact .refused _ _ _

theorem createChain_alike (labels : List String)
    {links others : List (RelationshipPattern × NodePattern)}
    (same : List.Forall₂ (LinkPaired (Expression.Corresponds before after)) links others) :
    WritesAlike (OpsAgree before after) (createChain labels links) (createChain labels others) := by
  induction same generalizing labels with
  | nil =>
      match labels with
      | [] | [_] | _ :: _ :: _ => exact .pure (.refl [])
  | cons first _ ih =>
      match labels with
      | [] | [_] => exact .pure (.refl [])
      | left :: right :: rest =>
          exact (createRelationship_alike left right first.1).append (ih (right :: rest))

/-- Paths with the labels of their nodes. -/
def LabelledPaired (before after : Properties) (a b : List String × PathPattern) : Prop :=
  a.1 = b.1 ∧ a.2.Paired (Expression.Corresponds before after) b.2

theorem createPaths_alike {paths others : List PathPattern}
    (same : List.Forall₂ (PathPattern.Paired (Expression.Corresponds before after)) paths others) :
    WritesAlike (OpsAgree before after) (createPaths paths) (createPaths others) := by
  have nodes : WritesAlike
      (fun a b : List (List String × PathPattern) × Ops =>
        List.Forall₂ (LabelledPaired before after) a.1 b.1 ∧ OpsAgree before after a.2 b.2)
      (createPathNodes paths) (createPathNodes others) := by
    induction same with
    | nil => exact .pure ⟨.nil, .refl []⟩
    | cons first _ ih =>
        have all := List.Forall₂.cons first.start (List.forall₂_map_left_iff.mpr
          (List.forall₂_map_right_iff.mpr (first.chain.imp fun _ _ link => link.2)))
        exact (createNodes_alike all).bind fun _ _ agree => ih.bind fun _ _ agrees =>
          .pure ⟨.cons ⟨agree.1, first⟩ agrees.1, agree.2.append agrees.2⟩
  have edges {labelled labelled' : List (List String × PathPattern)}
      (same : List.Forall₂ (LabelledPaired before after) labelled labelled') :
      WritesAlike (OpsAgree before after) (createPathEdges labelled)
        (createPathEdges labelled') := by
    induction same with
    | nil => exact .pure (.refl [])
    | @cons one other _ _ first _ ih =>
        obtain ⟨labels, p⟩ := one
        obtain ⟨labels', p'⟩ := other
        obtain ⟨rfl, path⟩ := first
        exact (createChain_alike labels path.chain).append ih
  exact nodes.bind fun _ _ agree => (edges agree.1).bind fun _ _ agrees =>
    .pure (agree.2.append agrees)

variable {b : Bindings}

theorem setOps_agrees {x y : SetItem} (same : x.Paired (Expression.Corresponds before after) y) :
    Alike (OpAgrees before after) (setOps b x) (setOps b y) := by
  obtain ⟨owner, key, value⟩ := same
  have literals := value.literal?
  have finished (single : Bool) {first second : Slot Script}
      (same : SlotAgrees before after first second) :
      OpAgrees before after
        (.nested .sideEffect [.of [.select [y.owner], writeOps single y.key first]])
        (.nested .sideEffect [.of [.select [y.owner], writeOps single y.key second]]) :=
    .wrapped _ (.then_ _ (.one (writeOps_agrees single _ same))) _
  unfold setOps
  rw [owner, key]
  refine (Alike.refl (fun _ => rfl) (kindOf b y.owner)).bind fun kind kind' equal => ?_
  subst equal
  generalize x.value.literal? = found, y.value.literal? = found' at literals
  cases literals with
  | none =>
      have script := (valueScript_agrees (b := b) value).map fun _ _ => SlotAgrees.builder
      cases kind with
      | node => exact script.bind fun _ _ agree => .pure (finished true agree)
      | relationship => exact script.bind fun _ _ agree => .pure (finished false agree)
      | relationships => exact .error _
  | some values =>
      have constant := SlotAgrees.literal (literalValue_corresponds values)
      cases kind with
      | node => exact .ok (finished true constant)
      | relationship => exact .ok (finished false constant)
      | relationships => exact .error _

theorem setAll_agree {items others : List SetItem}
    (same : List.Forall₂ (SetItem.Paired (Expression.Corresponds before after)) items others) :
    Alike (OpsAgree before after) (setAll b items) (setAll b others) := by
  induction same with
  | nil => exact .ok (.refl [])
  | cons first _ ih =>
      exact (setOps_agrees first).bind fun _ _ op => ih.bind fun _ _ rest => .pure (.cons op rest)

end Writes

section Returns

variable {b : Bindings} {items items' : List ReturnItem} {order order' : List SortItem}

theorem columnOps_agree {e e' : Expression} (same : e.Corresponds before after e') :
    Alike (OpsAgree before after) (columnOps b e) (columnOps b e') := by
  cases same with
  | reference name => exact .refl (.refl ·) _
  | literal same => exact valueOps_agree _ (.literal same)
  | property owner key => exact valueOps_agree _ (.property owner key)
  | list same => exact valueOps_agree _ (.list same)
  | map keys same => exact valueOps_agree _ (.map keys same)
  | binary op first second => exact valueOps_agree _ (.binary op first second)
  | not same => exact valueOps_agree _ (.not same)
  | negate same => exact valueOps_agree _ (.negate same)
  | isNull same => exact valueOps_agree _ (.isNull same)
  | isNotNull same => exact valueOps_agree _ (.isNotNull same)
  | call name distinct same => exact valueOps_agree _ (.call name distinct same)
  | countAll => exact valueOps_agree _ .countAll

abbrev ItemsPaired (before after : Properties) : List ReturnItem → List ReturnItem → Prop :=
  List.Forall₂ (ReturnItem.Paired (Expression.Corresponds before after))

abbrev OrderPaired (before after : Properties) : List SortItem → List SortItem → Prop :=
  List.Forall₂ (SortItem.Paired (Expression.Corresponds before after))

theorem resolveAlias_corresponds (same : ItemsPaired before after items items')
    {e e' : Expression} (expressions : e.Corresponds before after e') :
    (resolveAlias items e).Corresponds before after (resolveAlias items' e') := by
  have found (name : String) : Option.Rel (ReturnItem.Paired (Expression.Corresponds before after))
      (items.find? fun item => item.alias_ == some name)
      (items'.find? fun item => item.alias_ == some name) := by
    induction same with
    | nil => exact .none
    | cons first _ ih =>
        rw [List.find?_cons, List.find?_cons, first.alias_]
        split
        · exact .some first
        · exact ih
  cases expressions with
  | reference name =>
      have both := found name
      unfold resolveAlias
      dsimp only
      generalize (items.find? fun item => item.alias_ == some name) = one,
        (items'.find? fun item => item.alias_ == some name) = other at both
      cases both with
      | none => exact .reference name
      | some item => exact item.expression
  | literal same => exact .literal same
  | property owner key => exact .property owner key
  | list same => exact .list same
  | map keys same => exact .map keys same
  | binary op first second => exact .binary op first second
  | not same => exact .not same
  | negate same => exact .negate same
  | isNull same => exact .isNull same
  | isNotNull same => exact .isNotNull same
  | call name distinct same => exact .call name distinct same
  | countAll => exact .countAll

theorem sortKeys_agree (same : ItemsPaired before after items items')
    (sorted : OrderPaired before after order order') :
    Alike (OpsAgree before after) (sortKeys b items order) (sortKeys b items' order') := by
  induction sorted with
  | nil => exact .ok (.refl [])
  | @cons one other _ _ first _ ih =>
      have direction : sortOrder one = sortOrder other := by
        rw [sortOrder, sortOrder, first.descending]
      refine (valueScript_agrees (resolveAlias_corresponds same first.expression)).bind
        fun _ _ key => ih.bind fun _ _ rest => .pure (.cons ?_ rest)
      rw [direction]
      exact .append _ (.cons (.builder key) (.cons (Script.resolveOne_agrees _) .nil)) _

theorem columns_agree (same : ItemsPaired before after items items') :
    Alike (OpsAgree before after) (columns b items) (columns b items') := by
  induction same with
  | nil => exact .ok (.refl [])
  | cons first _ ih =>
      exact (columnOps_agree first.expression).bind fun _ _ column => ih.bind fun _ _ rest =>
        .pure (.cons (.wrapped _ column _) rest)

theorem sortRows_eq (names : List String) (sorted : OrderPaired before after order order') :
    sortRows names order = sortRows names order' := by
  have keys : columnSortKeys names order = columnSortKeys names order' := by
    induction sorted with
    | nil => rfl
    | @cons one other _ _ first _ ih =>
        obtain ⟨expression, descending, text⟩ := first
        have column : sortColumn names one = sortColumn names other := by
          unfold sortColumn
          rw [text]
          generalize one.expression = e, other.expression = e' at expression
          cases expression <;> rfl
        have direction : sortOrder one = sortOrder other := by
          rw [sortOrder, sortOrder, descending]
        rw [columnSortKeys, columnSortKeys, column, direction, ih]
  unfold sortRows
  rw [isEmpty_of_paired sorted, keys]

theorem column_eq {one other : ReturnItem}
    (same : one.Paired (Expression.Corresponds before after) other) :
    one.column = other.column := by
  rw [ReturnItem.column, ReturnItem.column, same.alias_, same.text]

theorem names_eq (same : ItemsPaired before after items items') :
    items.map ReturnItem.column = items'.map ReturnItem.column := by
  induction same with
  | nil => rfl
  | cons first _ ih => rw [List.map_cons, List.map_cons, column_eq first, ih]

theorem plainRows_agree {r s : ReturnClause} (names : List String)
    (same : r.Paired (Expression.Corresponds before after) s) :
    Alike (OpsAgree before after) (plainRows b r names) (plainRows b s names) := by
  obtain ⟨distinct, items, order, skip, limit⟩ := same
  unfold plainRows
  rw [distinct, isEmpty_of_paired order, sortRows_eq names order]
  have projected (distinct : Bool) {first first' : Ops}
      (agree : OpsAgree before after first first') (last : Except CompileFault Ops) :
      Alike (OpsAgree before after)
        (do
          let columns ← columns b r.items
          let after ← last
          return first ++ .project names :: columns ++ distinctOps distinct ++ after)
        (do
          let columns ← columns b s.items
          let after ← last
          return first' ++ .project names :: columns ++ distinctOps distinct ++ after) :=
    (columns_agree items).bind fun _ _ columns => (Alike.refl (.refl ·) last).bind fun _ _ rest =>
      .pure (((agree.append (.then_ _ columns)).append (.refl _)).append rest)
  -- sorting comes first unless there is nothing to sort by or rows must be distinct
  generalize s.distinct = distinct, s.order.isEmpty = unsorted
  cases distinct with
  | true => exact projected true (.refl []) _
  | false =>
      cases unsorted with
      | true => exact projected false (.refl []) _
      | false =>
          exact (sortKeys_agree items order).bind fun _ _ keys =>
            projected false (.then_ _ keys) _

theorem inputOps_agree {one other : ReturnItem}
    (same : one.Paired (Expression.Corresponds before after) other) :
    Alike (OpsAgree before after) (inputOps b one) (inputOps b other) := by
  obtain ⟨expression, alias_, text⟩ := same
  have plain {e e' : Expression} (same : e.Corresponds before after e') :
      Alike (OpsAgree before after) (inputOps.plain b one e) (inputOps.plain b other e') := by
    unfold inputOps.plain
    rw [Expression.hasAggregate_eq e same, text]
    split
    · exact .error _
    · exact columnOps_agree same
  unfold inputOps
  generalize one.expression = e, other.expression = e' at expression
  cases expression with
  | countAll => exact .ok (.refl _)
  | call name distinct same =>
      dsimp only
      split
      · match same with
        | .nil => exact .error _
        | .cons first .nil => exact columnOps_agree first
        | .cons _ (.cons _ _) => exact .error _
      · exact plain (.call name distinct same)
  | reference name => exact plain (.reference name)
  | literal same => exact plain (.literal same)
  | property owner key => exact plain (.property owner key)
  | list same => exact plain (.list same)
  | map keys same => exact plain (.map keys same)
  | binary op first second => exact plain (.binary op first second)
  | not same => exact plain (.not same)
  | negate same => exact plain (.negate same)
  | isNull same => exact plain (.isNull same)
  | isNotNull same => exact plain (.isNotNull same)

theorem inputs_agree (same : ItemsPaired before after items items') :
    Alike (OpsAgree before after) (inputs b items) (inputs b items') := by
  induction same with
  | nil => exact .ok (.refl [])
  | cons first _ ih =>
      exact (inputOps_agree first).bind fun _ _ input => ih.bind fun _ _ rest =>
        .pure (.cons (.wrapped _ input _) rest)

theorem resultOps_eq {one other : ReturnItem}
    (same : one.Paired (Expression.Corresponds before after) other) :
    resultOps one = resultOps other := by
  have column := column_eq same
  obtain ⟨expression, alias_, text⟩ := same
  unfold resultOps resultOps.first
  rw [column]
  generalize one.expression = e, other.expression = e' at expression
  cases expression <;> rfl

theorem results_eq (same : ItemsPaired before after items items') :
    (items.map fun item => Op.nested (α := Script) .by_ [.of (resultOps item)]) =
      items'.map fun item => .nested .by_ [.of (resultOps item)] := by
  induction same with
  | nil => rfl
  | cons first _ ih => rw [List.map_cons, List.map_cons, resultOps_eq first, ih]

theorem keys_eq (same : ItemsPaired before after items items') :
    (items.filter fun item => !item.expression.isAggregate).map ReturnItem.column =
      (items'.filter fun item => !item.expression.isAggregate).map ReturnItem.column := by
  induction same with
  | nil => rfl
  | cons first _ ih =>
      rw [List.filter_cons, List.filter_cons, Expression.isAggregate_eq first.expression]
      split
      · rw [List.map_cons, List.map_cons, column_eq first, ih]
      · exact ih

theorem anyAggregate_eq (same : ItemsPaired before after items items') :
    (items.any fun item => item.expression.hasAggregate) =
      items'.any fun item => item.expression.hasAggregate := by
  induction same with
  | nil => rfl
  | cons first _ ih =>
      rw [List.any_cons, List.any_cons, Expression.hasAggregate_eq _ first.expression, ih]

theorem aggregatedRows_agree {r s : ReturnClause} (names : List String)
    (same : r.Paired (Expression.Corresponds before after) s) :
    Alike (OpsAgree before after) (aggregatedRows b r names) (aggregatedRows b s names) := by
  obtain ⟨distinct, items, order, skip, limit⟩ := same
  unfold aggregatedRows
  rw [distinct, keys_eq items, results_eq items, sortRows_eq names order]
  exact (inputs_agree items).bind fun _ _ inputs =>
    (Alike.refl OpsAgree.refl (sortRows names s.order)).bind fun _ _ sorted =>
    .pure (((((OpsAgree.then_ _ inputs).append (.refl _)).append (.refl _)).append (.refl _)).append
      sorted)

theorem returnOps_agree {r s : ReturnClause}
    (same : r.Paired (Expression.Corresponds before after) s) :
    Alike (OpsAgree before after) (returnOps b r) (returnOps b s) := by
  have window : windowOps r = windowOps s := by
    rw [windowOps, windowOps, same.skip, same.limit]
  have aggregated (names : List String) := aggregatedRows_agree (b := b) names same
  have plain (names : List String) := plainRows_agree (b := b) names same
  unfold returnOps
  rw [names_eq same.items, anyAggregate_eq same.items, window]
  dsimp only
  split
  · exact .error _
  · split
    · exact (aggregated _).bind fun _ _ rows => .pure (rows.append (.refl _))
    · exact (plain _).bind fun _ _ rows => .pure (rows.append (.refl _))

end Returns

/-- Corresponding queries have scripts that agree, or none for the same reason. -/
theorem queryOps_alike {q r : Query} (same : q.Paired (Expression.Corresponds before after) r) :
    WritesAlike (OpsAgree before after) (queryOps q) (queryOps r) := by
  obtain ⟨found, created, set, delete, return_⟩ := same
  have returned (b : Bindings) : Alike (OpsAgree before after)
      ((q.return_.map (returnOps b)).getD (.ok [.append .barrier [], .limit 0]))
      ((r.return_.map (returnOps b)).getD (.ok [.append .barrier [], .limit 0])) := by
    generalize q.return_ = one, r.return_ = other at return_
    cases return_ with
    | none => exact .ok (.refl _)
    | some clause => exact returnOps_agree clause
  unfold queryOps
  rw [delete]
  exact (matchClauses_alike found).bind fun _ _ matches_ => (createPaths_alike created).bind
    fun _ _ creates => .after_ _ fun started => .after_ _ fun scope =>
    (WritesAlike.of_except (setAll_agree set)).bind fun _ _ sets => .after_ _ fun deleted =>
    (WritesAlike.of_except (returned _)).bind fun _ _ returns =>
    .pure (((((matches_.append creates).append (.refl _)).append sets).append (.refl _)).append
      returns)

end PropertyGraph.Cypher

namespace PropertyGraph

theorem Query.program_corresponds {before after : Properties} {q r : Query}
    (same : q.Paired (Expression.Corresponds before after) r) :
    Alike (Program.Corresponds before after) q.program r.program := by
  have start : Recorder.Corresponds before after .rootedAtGraph .rootedAtGraph := ⟨rfl, .nil⟩
  have ops := Cypher.queryOps_alike same .empty
  unfold program buildOn script
  generalize (Cypher.queryOps q).run .empty = one, (Cypher.queryOps r).run .empty = other at ops
  cases ops with
  | error fault => exact .error _
  | @ok found found' together =>
      have performed := together.1 _ _ start
      dsimp only [bind, Except.bind, pure, Except.pure]
      rw [Script.perform, Script.perform]
      generalize Script.performAll found.1 Recorder.rootedAtGraph = built,
        Script.performAll found'.1 Recorder.rootedAtGraph = built' at performed
      cases performed with
      | error fault => exact .error _
      | ok same => exact .ok same.program

end PropertyGraph
