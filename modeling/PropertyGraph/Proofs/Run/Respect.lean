import PropertyGraph.Proofs.Run.View

/-!
Every step that looks at nothing outside a view leads traversers that look the same to such
traversers, and so does every plan.
-/

namespace PropertyGraph

open Exec Application

variable {view : View}

/-! Steps that let traversers pass. -/

namespace Exec.Agree

variable {t u : Traverser} {stream other : Stream}

theorem has (a : Application) (alike : Stream.Alike view stream other) :
    Agree (Stream.Alike view) (a.has stream) (a.has other) :=
  after _ fun _ => keep_object (fun t u same => by rw [same]) alike

theorem hasNot (a : Application) (alike : Stream.Alike view stream other) :
    Agree (Stream.Alike view) (a.hasNot stream) (a.hasNot other) :=
  after _ fun _ => keep_object (fun t u same => by rw [same]) alike

theorem hasLabel (a : Application) (alike : Stream.Alike view stream other) :
    Agree (Stream.Alike view) (a.hasLabel stream) (a.hasLabel other) :=
  keep_object (fun t u same => by rw [same]) alike

theorem hasKey (a : Application) (alike : Stream.Alike view stream other) :
    Agree (Stream.Alike view) (a.hasKey stream) (a.hasKey other) :=
  keep_object (fun t u same => by rw [same]) alike

theorem matching (a : Application) (alike : Stream.Alike view stream other) :
    Agree (Stream.Alike view) (a.matching stream) (a.matching other) := by
  unfold Application.matching
  split
  · exact keep_object (fun t u same => by rw [same]) alike
  · exact throw _

theorem distinctBy {keyOf : Traverser → Exec Value}
    (each : ∀ t u, t.Alike view u → Agree Eq (keyOf t) (keyOf u)) (seen : List Value)
    (alike : Stream.Alike view stream other) :
    Agree (Stream.Alike view) (Application.distinctBy keyOf seen stream)
      (Application.distinctBy keyOf seen other) := by
  induction alike generalizing seen with
  | nil => exact pure .nil
  | cons first _ ih =>
      refine (each _ _ first).bind_eq fun key => ?_
      split
      · exact ih seen
      · exact (ih _).bind fun _ _ more => pure (.cons first more)

theorem namedValues (alike : t.Alike view u) {names : List String}
    (reads : ∀ name ∈ names, view.reads name) :
    Application.namedValues t names = Application.namedValues u names := by
  induction names with
  | nil => rfl
  | cons name rest ih =>
      have first := alike.named? (reads name List.mem_cons_self) .last
      have others := ih fun other member => reads other (List.mem_cons_of_mem _ member)
      rw [Application.namedValues, Application.namedValues, first, others]

theorem simplePath (whole : view.path) (alike : Stream.Alike view stream other) :
    Agree (Stream.Alike view) (Application.simplePath stream) (Application.simplePath other) := by
  refine keep (fun t u same => ?_) alike
  rw [same.path whole]
  exact refl _

theorem replaced (alike : t.Alike view u) {p : Predicate}
    (reads : ∀ s, .string s ∈ p.values → view.reads s) (world : World) :
    (p.mapValues fun
        | .string label => (world.named? t .last label).getD (.string label)
        | other => other) =
      p.mapValues fun
        | .string label => (world.named? u .last label).getD (.string label)
        | other => other := by
  refine Predicate.mapValues_congr fun v member => ?_
  cases v with
  | string s =>
      have found : world.named? t .last s = world.named? u .last s := by
        simp only [World.named?, Traverser.pathValue?, alike.object,
          alike.labelled s (reads s member)]
      simp only [found]
  | _ => rfl

theorem resolved (alike : t.Alike view u) {p : Predicate}
    (reads : ∀ s, .string s ∈ p.values → view.reads s) :
    Application.resolved p t = Application.resolved p u :=
  congrArg (fun f : World → Predicate => (get : Exec World) >>= fun world =>
    Pure.pure (f world)) (funext (replaced alike reads))

end Exec.Agree

namespace Application.Respects

variable {a : Application} {t u : Traverser} {stream other : Stream}

theorem where_ (respects : a.Respects view) (kind : a.kind = .where_)
    (alike : Stream.Alike view stream other) :
    Agree (Stream.Alike view) (a.where_ stream) (a.where_ other) := by
  have looks : a.kind.looksUp = true := by rw [kind]; rfl
  unfold Application.where_
  split
  · next p found =>
      have given : .predicate p ∈ a.arguments := by
        unfold Application.predicate? at found
        split at found
        · next rest first =>
            cases found
            rw [List.drop_zero] at first
            rw [first]
            exact List.mem_cons_self
        · cases found
      refine .keep (fun t u same => ?_) alike
      rw [Agree.resolved same (respects.admitted.predicate looks given), same.object]
      exact .refl _
  · exact respects.child 0 fun child respectsChild =>
      .keep (fun _ _ same => respectsChild.hasResult same) alike

theorem chosen (respects : a.Respects view) (alike : t.Alike view u) (key : Value) : Agree Eq
    (match (a.bys.head?).join with
      | none => pure key
      | some child => do return (← child.first? (t.split key)).getD .null)
    (match (a.bys.head?).join with
      | none => pure key
      | some child => do return (← child.first? (u.split key)).getD .null) := by
  split
  · exact .refl _
  · next child found =>
      rw [Option.join_eq_some_iff] at found
      have respectsChild := respects.bys (List.mem_of_mem_head? found) child rfl
      exact (respectsChild.first (alike.split key)).bind_eq fun _ => .refl _

theorem dedup (respects : a.Respects view) (kind : a.kind = .dedup)
    (alike : Stream.Alike view stream other) :
    Agree (Stream.Alike view) (a.dedup stream) (a.dedup other) := by
  have looks : a.kind.looksUp = true := by rw [kind]; rfl
  refine .distinctBy (fun t u same => ?_) [] alike
  have named : Application.namedValues t a.labels = Application.namedValues u a.labels :=
    Agree.namedValues same (respects.admitted.reads looks)
  dsimp only
  rw [same.object, named]
  split
  · exact .after _ (respects.chosen same)
  · exact .after _ (respects.chosen same)

theorem anyChild (wanted : Bool) (alike : t.Alike view u) {children : List Child}
    (respect : ∀ child ∈ children, child.Respects view) :
    Agree Eq (Application.anyChild wanted t children) (Application.anyChild wanted u children) := by
  induction children with
  | nil => exact .refl _
  | cons child rest ih =>
      refine ((respect child List.mem_cons_self).hasResult alike).bind_eq fun found => ?_
      split
      · exact .refl _
      · exact ih fun other member => respect other (List.mem_cons_of_mem _ member)

theorem and (respects : a.Respects view) (alike : Stream.Alike view stream other) :
    Agree (Stream.Alike view) (a.and stream) (a.and other) := by
  refine .keep (fun t u same => ?_) alike
  exact (anyChild false same respects.children).bind_eq fun _ => .refl _

theorem or (respects : a.Respects view) (alike : Stream.Alike view stream other) :
    Agree (Stream.Alike view) (a.or stream) (a.or other) :=
  .keep (fun _ _ same => anyChild true same respects.children) alike

theorem not (respects : a.Respects view) (alike : Stream.Alike view stream other) :
    Agree (Stream.Alike view) (a.not stream) (a.not other) := by
  refine respects.child 0 fun child respectsChild => .keep (fun t u same => ?_) alike
  exact (respectsChild.hasResult same).bind_eq fun _ => .refl _

end Application.Respects

/-! Steps that move, and steps that take a part of the stream. -/

namespace Exec.Agree

variable {t u : Traverser} {stream other : Stream}

theorem vertices (alike : Stream.Alike view stream other) :
    Agree (Stream.Alike view) (Application.vertices stream) (Application.vertices other) := by
  refine forEach (fun t u same => after _ fun g => pure ?_) alike
  have splits := same.splits (g.vertices.map fun v => .vertex v.ref)
  rwa [List.map_map, List.map_map] at splits

theorem edges (a : Application) (incident : Graph → VertexId → List Edge)
    (alike : Stream.Alike view stream other) :
    Agree (Stream.Alike view) (a.edges incident stream) (a.edges incident other) := by
  refine forEach (fun t u same => ?_) alike
  rw [same.object]
  refine after _ fun id => after _ fun g => pure ?_
  have splits := same.splits (((incident g id).filter fun e =>
    a.labels.isEmpty || a.labels.contains e.label).map fun e => .edge e.ref)
  rwa [List.map_map, List.map_map] at splits

theorem endpoint (a : Application) {choose : EdgeRef → Traverser → VertexId}
    (chosen : ∀ t u e, t.Alike view u → vertexId? t.object = none → choose e t = choose e u)
    (alike : Stream.Alike view stream other) :
    Agree (Stream.Alike view) (a.endpoint choose stream) (a.endpoint choose other) := by
  refine mapEach (fun t u same => ?_) alike
  rw [← same.object]
  split
  · next e edge =>
      rw [chosen t u e same (by rw [edge]; rfl)]
      exact refl _
  · exact refl _

theorem otherV (a : Application) (alike : Stream.Alike view stream other) :
    Agree (Stream.Alike view) (a.otherV stream) (a.otherV other) := by
  refine endpoint a (fun t u e same edge => ?_) alike
  rw [otherEnd, otherEnd, same.previous edge]

theorem filterMap {f : Traverser → Option Traverser}
    (each : ∀ t u, t.Alike view u → Stream.Alike view (f t).toList (f u).toList)
    (alike : Stream.Alike view stream other) :
    Stream.Alike view (stream.filterMap f) (other.filterMap f) := by
  induction alike with
  | nil => exact .nil
  | @cons t u stream other first _ ih =>
      have cons (t : Traverser) (rest : Stream) :
          (t :: rest).filterMap f = (f t).toList ++ rest.filterMap f := by
        rw [List.filterMap_cons]
        cases f t <;> rfl
      rw [cons, cons]
      exact List.rel_append (each t u first) ih

theorem slice (low high : Int64) (alike : Stream.Alike view stream other) :
    Stream.Alike view (Application.slice low high stream) (Application.slice low high other) := by
  unfold Application.slice
  dsimp only
  split
  · exact List.forall₂_drop _ alike
  · exact List.forall₂_take _ (List.forall₂_drop _ alike)

theorem window (scope : Scope) (low high : Int64) (alike : Stream.Alike view stream other) :
    Stream.Alike view (Application.window scope low high stream)
      (Application.window scope low high other) := by
  cases scope with
  | global => exact slice low high alike
  | local_ =>
      refine filterMap (fun t u same => ?_) alike
      unfold Application.localSlice
      rw [same.object]
      split
      · next items _ =>
          split
          · cases (Application.slice low high items).head? with
            | none => exact .nil
            | some v => exact .one (same.split v)
          · exact .one (same.split _)
      · exact .one same

theorem range (a : Application) (alike : Stream.Alike view stream other) :
    Agree (Stream.Alike view) (a.range stream) (a.range other) :=
  after _ fun low => after _ fun high => pure (window a.scope low high alike)

theorem limit (a : Application) (alike : Stream.Alike view stream other) :
    Agree (Stream.Alike view) (a.limit stream) (a.limit other) :=
  after _ fun high => pure (window a.scope 0 high alike)

theorem skip (a : Application) (alike : Stream.Alike view stream other) :
    Agree (Stream.Alike view) (a.skip stream) (a.skip other) :=
  after _ fun _ => pure (List.forall₂_drop _ alike)

theorem lastItems (n : Nat) (alike : Stream.Alike view stream other) :
    Stream.Alike view (Application.lastItems n stream) (Application.lastItems n other) := by
  rw [Application.lastItems, Application.lastItems, alike.length_eq]
  exact List.forall₂_drop _ alike

theorem tail (a : Application) (alike : Stream.Alike view stream other) :
    Agree (Stream.Alike view) (a.tail stream) (a.tail other) := by
  refine after _ fun n => ?_
  dsimp only
  split
  · exact pure (lastItems _ alike)
  · refine pure (filterMap (fun t u same => ?_) alike)
    unfold Application.localTail
    rw [same.object]
    split
    · next items _ =>
        split
        · cases (Application.lastItems (bound n) items).head? with
          | none => exact .nil
          | some v => exact .one (same.split v)
        · exact .one (same.split _)
    · exact .one same

end Exec.Agree

/-! Sorting. -/

theorem getElem?_related {α β : Type} {related : α → β → Prop} {items : List α} {others : List β}
    (all : List.Forall₂ related items others) (i : Nat) :
    Option.Rel related items[i]? others[i]? := by
  induction all generalizing i with
  | nil => exact .none
  | cons first _ ih =>
      cases i with
      | zero => exact .some first
      | succ i => exact ih i

theorem itemsAt_related {α β : Type} {related : α → β → Prop} {items : List α} {others : List β}
    (all : List.Forall₂ related items others) (order : List Nat) :
    List.Forall₂ related (itemsAt items order) (itemsAt others order) :=
  List.rel_filterMap (R := Eq) (fun _ i same => same ▸ getElem?_related all i)
    (List.forall₂_refl order)

/-- The same keys, and traversers that look the same. -/
def Keyed {κ : Type} (view : View) (x y : κ × Traverser) : Prop := x.1 = y.1 ∧ x.2.Alike view y.2

namespace Keyed

variable {κ : Type} {x y : κ × Traverser} {items others : List (κ × Traverser)}

theorem streams (keyed : List.Forall₂ (Keyed view) items others) :
    Stream.Alike view (items.map (·.2)) (others.map (·.2)) := by
  exact List.rel_map (fun _ _ one => one.2) keyed

theorem keys_eq (keyed : List.Forall₂ (Keyed view) items others) :
    items.map (·.1) = others.map (·.1) := by
  rw [← List.forall₂_eq_eq_eq]
  exact List.rel_map (fun _ _ one => one.1) keyed

/-- A sorter sees the keys alone. -/
theorem sort (s : Sorter) (compare : κ → κ → Ordering)
    (keyed : List.Forall₂ (Keyed view) items others) :
    Option.Rel (List.Forall₂ (Keyed view)) (s.sort (fun x y => compare x.1 y.1) items)
      (s.sort (fun x y => compare x.1 y.1) others) := by
  have compared : compareAt (fun x y => compare x.1 y.1) items =
      compareAt (fun x y => compare x.1 y.1) others := by
    have keys := keys_eq keyed
    have key (items : List (κ × Traverser)) (i : Nat) :
        (items.map (·.1))[i]? = items[i]?.map (·.1) := List.getElem?_map ..
    funext i j
    have first := (key items i).symm.trans ((congrArg (·[i]?) keys).trans (key others i))
    have second := (key items j).symm.trans ((congrArg (·[j]?) keys).trans (key others j))
    unfold compareAt
    cases here : items[i]? <;> cases there : others[i]? <;> simp [here, there] at first ⊢
    cases here : items[j]? <;> cases there : others[j]? <;> simp [here, there] at second ⊢
    rw [first, second]
  rw [Sorter.sort, Sorter.sort, compared, keyed.length_eq]
  cases s.positions others.length _ with
  | none => exact .none
  | some order => exact .some (itemsAt_related keyed order)

end Keyed

namespace Application.Respects

variable {a : Application} {t u : Traverser} {stream other : Stream}

theorem sortKeys (alike : t.Alike view u) {criteria : List Criterion}
    (respect : ∀ c ∈ criteria, ∀ child ∈ c.child, child.Respects view) :
    Agree Eq (Application.sortKeys t criteria) (Application.sortKeys u criteria) := by
  induction criteria with
  | nil => exact .refl _
  | cons c rest ih =>
      have first := Child.Respects.valueOr (respect c List.mem_cons_self) .orderWithoutKey alike
      refine first.bind_eq fun key => ?_
      refine (ih fun other member => respect other (List.mem_cons_of_mem _ member)).bind_eq
        fun keys => ?_
      exact .refl _

theorem withSortKeys {criteria : List Criterion}
    (respect : ∀ c ∈ criteria, ∀ child ∈ c.child, child.Respects view)
    (alike : Stream.Alike view stream other) :
    Agree (List.Forall₂ (Keyed view)) (Application.withSortKeys criteria stream)
      (Application.withSortKeys criteria other) := by
  induction alike with
  | nil => exact .pure .nil
  | cons first _ ih =>
      refine (sortKeys first respect).bind fun keys _ same => ih.bind fun _ _ more => ?_
      exact .pure (.cons ⟨same, first⟩ more)

theorem criteria (respects : a.Respects view) :
    ∀ c ∈ a.criteria, ∀ child ∈ c.child, child.Respects view := by
  intro c member child found
  unfold Application.criteria at member
  split at member
  · rw [List.mem_singleton.mp member] at found
    cases found
  · obtain ⟨m, modulates, rfl⟩ := List.mem_map.mp member
    exact respects.modulations m (List.mem_filter.mp modulates).1 child
      (List.mem_of_mem_head? found)

theorem order (respects : a.Respects view) (engine : Engine)
    (alike : Stream.Alike view stream other) :
    Agree (Stream.Alike view) (a.order engine stream) (a.order engine other) := by
  refine (withSortKeys respects.criteria alike).bind fun items others keyed => ?_
  split
  · rw [Shuffle.apply, Shuffle.apply, List.length_map, List.length_map, keyed.length_eq]
    exact .pure (itemsAt_related (Keyed.streams keyed) _)
  · have sorts := Keyed.sort engine.sorter (compareKeys a.criteria) keyed
    generalize engine.sorter.sort _ items = found at sorts ⊢
    generalize engine.sorter.sort _ others = found' at sorts ⊢
    cases sorts with
    | some sorted => exact .pure (Keyed.streams sorted)
    | none =>
        rw [Keyed.keys_eq keyed]
        exact .throw _

end Application.Respects

/-! Steps that compute values. -/

namespace Exec.Agree

variable {t u : Traverser} {stream other : Stream}

theorem fold (alike : Stream.Alike view stream other) :
    Agree (Stream.Alike view) (Application.fold stream) (Application.fold other) := by
  rw [Application.fold, Application.fold, alike.objects_eq]
  exact pure (.refl _)

theorem unfold (alike : Stream.Alike view stream other) :
    Agree (Stream.Alike view) (Application.unfold stream) (Application.unfold other) := by
  refine forEach (fun t u same => ?_) alike
  rw [same.object]
  exact pure (same.splits _)

theorem count (a : Application) (alike : Stream.Alike view stream other) :
    Agree (Stream.Alike view) (a.count stream) (a.count other) := by
  unfold Application.count
  split
  · rw [alike.length_eq]
    exact pure (.refl _)
  · exact mapEach_object (fun t u same => by rw [same]) alike

theorem reduce (a : Application) (alike : Stream.Alike view stream other) :
    Agree (Stream.Alike view) (a.reduce stream) (a.reduce other) := by
  unfold Application.reduce
  split
  · rw [alike.objects_eq]
    exact after _ fun _ => pure (.refl _)
  · refine forEach (fun t u same => ?_) alike
    rw [same.object]
    refine after _ fun value => pure ?_
    cases value with
    | none => exact .nil
    | some v => exact .one (same.split v)

theorem path (whole : view.path) (alike : Stream.Alike view stream other) :
    Agree (Stream.Alike view) (Application.path stream) (Application.path other) := by
  refine mapEach (fun t u same => ?_) alike
  rw [same.path whole]
  exact refl _

theorem valueMap (a : Application) (alike : Stream.Alike view stream other) :
    Agree (Stream.Alike view) (a.valueMap stream) (a.valueMap other) :=
  mapEach_object (fun t u same => by rw [same]) alike

theorem values (a : Application) (alike : Stream.Alike view stream other) :
    Agree (Stream.Alike view) (a.values stream) (a.values other) := by
  refine forEach (fun t u same => ?_) alike
  rw [same.object]
  refine after _ fun known => ?_
  split
  · exact pure (same.splits _)
  · exact pure (same.splits _)

theorem properties (a : Application) (alike : Stream.Alike view stream other) :
    Agree (Stream.Alike view) (a.properties stream) (a.properties other) := by
  refine forEach (fun t u same => ?_) alike
  rw [same.object]
  refine after _ fun owner => after _ fun known => pure ?_
  have splits := same.splits ((known.filter fun entry =>
    a.labels.isEmpty || a.labels.contains entry.1).map fun entry => .property owner entry.1 entry.2)
  rwa [List.map_map, List.map_map] at splits

theorem propertyPart (a : Application) (part : String → Value → Value)
    (alike : Stream.Alike view stream other) :
    Agree (Stream.Alike view) (a.propertyPart part stream) (a.propertyPart part other) :=
  mapEach_object (fun t u same => by rw [same]) alike

theorem label (a : Application) (alike : Stream.Alike view stream other) :
    Agree (Stream.Alike view) (a.label stream) (a.label other) :=
  mapEach_object (fun t u same => by rw [same]) alike

theorem id (alike : Stream.Alike view stream other) :
    Agree (Stream.Alike view) (Application.id stream) (Application.id other) :=
  mapEach_object (fun t u same => by rw [same]) alike

end Exec.Agree

namespace Application.Respects

variable {a : Application} {t u : Traverser} {stream other : Stream}

theorem projectColumns {bys : List (Option Child)}
    (respect : ∀ choice ∈ bys, ∀ child ∈ choice, child.Respects view) (alike : t.Alike view u)
    (index : Nat) (keys : List String) :
    Agree Eq (Application.projectColumns bys t index keys)
      (Application.projectColumns bys u index keys) := by
  induction keys generalizing index with
  | nil => exact .refl _
  | cons key rest ih =>
      have first := Child.Respects.valueOr (byAt respect index) (.projectWithoutValue key) alike
      refine first.bind_eq fun value => ?_
      exact (ih (index + 1)).bind_eq fun _ => .refl _

theorem project (respects : a.Respects view) (alike : Stream.Alike view stream other) :
    Agree (Stream.Alike view) (a.project stream) (a.project other) := by
  refine .mapEach (fun t u same => ?_) alike
  exact (projectColumns (fun _ => respects.bys) same 0 a.labels).bind_eq fun _ => .refl _

theorem entry {m n : Exec (Option (List (String × Value)))} (others : Agree Eq m n) (key : String)
    (found : Option Value) : Agree Eq
      (match found with
        | none => pure none
        | some value => do return (← m).map ((key, value) :: ·))
      (match found with
        | none => pure none
        | some value => do return (← n).map ((key, value) :: ·)) := by
  cases found with
  | none => exact .refl _
  | some value => exact others.bind_eq fun _ => .refl _

theorem selectKeys {bys : List (Option Child)}
    (respect : ∀ choice ∈ bys, ∀ child ∈ choice, child.Respects view) (pop : Pop)
    (alike : t.Alike view u) (index : Nat) {keys : List String}
    (reads : ∀ key ∈ keys, view.reads key) :
    Agree Eq (Application.selectKeys bys pop t index keys)
      (Application.selectKeys bys pop u index keys) := by
  induction keys generalizing index with
  | nil => exact .refl _
  | cons key rest ih =>
      have others := ih (index + 1) fun other member => reads other (List.mem_cons_of_mem _ member)
      unfold Application.selectKeys
      rw [alike.named? (reads key List.mem_cons_self) pop]
      refine .after _ fun entry => ?_
      cases entry with
      | none => exact .refl _
      | some value =>
          dsimp only
          cases chosen : Application.byAt bys index with
          | none => exact .after _ (entry others key)
          | some child =>
              have respectsChild := byAt respect index child chosen
              refine (respectsChild.first (alike.split value)).bind_eq fun found => ?_
              exact entry others key found

theorem selectOne (respects : a.Respects view) (pop : Pop) (alike : t.Alike view u)
    {keys : List String} (reads : ∀ key ∈ keys, view.reads key) :
    Agree (Stream.Alike view) (a.selectOne pop keys t) (a.selectOne pop keys u) := by
  refine (selectKeys (fun _ => respects.bys) pop alike 0 reads).bind_eq fun found => ?_
  split
  · exact .pure .nil
  · exact .pure (.one (alike.split _))
  · exact .pure (.one (alike.split _))

theorem select (respects : a.Respects view) (kind : a.kind = .select)
    (alike : Stream.Alike view stream other) :
    Agree (Stream.Alike view) (a.select stream) (a.select other) := by
  have looks : a.kind.looksUp = true := by rw [kind]; rfl
  unfold Application.select
  split
  · exact .mapEach_object (fun t u same => by rw [same]) alike
  · refine respects.admitted.text looks 1 fun key reads => .forEach (fun t u same => ?_) alike
    exact respects.selectOne _ same fun other member => List.mem_singleton.mp member ▸ reads
  · exact .forEach (fun _ _ same => respects.selectOne _ same (respects.admitted.reads looks)) alike

theorem keyed {choice : Option Child} (respects : ∀ child ∈ choice, child.Respects view)
    (fault : ExecutionFault) (alike : Stream.Alike view stream other) :
    Agree (List.Forall₂ (Keyed view)) (Application.keyed fault choice stream)
      (Application.keyed fault choice other) := by
  induction alike with
  | nil => exact .pure .nil
  | cons first _ ih =>
      refine (Child.Respects.valueOr respects fault first).bind fun key _ same => ?_
      exact ih.bind fun _ _ more => .pure (.cons ⟨same, first⟩ more)

/-- Groups with the same keys, of members that look the same. -/
def Grouped (view : View) (x y : Value × Stream) : Prop := x.1 = y.1 ∧ Stream.Alike view x.2 y.2

theorem intoGroup {groups groups' : Dictionary Value Stream} {entry entry' : Value × Traverser}
    (grouped : List.Forall₂ (Grouped view) groups groups') (member : Keyed view entry entry') :
    List.Forall₂ (Grouped view) (Application.intoGroup groups entry)
      (Application.intoGroup groups' entry') := by
  obtain ⟨key, t⟩ := entry
  obtain ⟨key', u⟩ := entry'
  obtain ⟨same, alike⟩ := member
  cases (same : key = key')
  have put (group group' : Stream) (members : Stream.Alike view group group') :
      List.Forall₂ (Grouped view) (Dictionary.put key group groups)
        (Dictionary.put key group' groups') := by
    induction grouped with
    | nil => exact .cons ⟨rfl, members⟩ .nil
    | @cons x y _ _ first rest ih =>
        unfold Dictionary.put
        rw [first.1]
        split
        · exact .cons ⟨rfl, members⟩ rest
        · exact .cons ⟨rfl, first.2⟩ ih
  have known : Stream.Alike view ((Dictionary.get? key groups).getD [])
      ((Dictionary.get? key groups').getD []) := by
    clear put
    induction grouped with
    | nil => exact .nil
    | @cons x y _ _ first rest ih =>
        unfold Dictionary.get?
        rw [first.1]
        split
        · exact first.2
        · exact ih
  exact put _ _ (List.rel_append known (.cons alike .nil))

theorem groupValues {choice : Option Child} (respects : ∀ child ∈ choice, child.Respects view)
    {groups groups' : Dictionary Value Stream}
    (grouped : List.Forall₂ (Grouped view) groups groups') :
    Agree Eq (Application.groupValues choice groups) (Application.groupValues choice groups') := by
  have value {members members' : Stream} (alike : Stream.Alike view members members') :
      Agree Eq (Application.groupValue choice members)
        (Application.groupValue choice members') := by
    unfold Application.groupValue
    cases choice with
    | none => exact .pure (by rw [alike.objects_eq])
    | some child =>
        refine (respects child rfl _ _ alike).bind fun _ _ found => ?_
        rw [found.objects_eq]
        exact .refl _
  induction grouped with
  | nil => exact .refl _
  | @cons x y _ _ first _ ih =>
      obtain ⟨key, members⟩ := x
      obtain ⟨key', members'⟩ := y
      obtain ⟨same, alike⟩ := first
      cases (same : key = key')
      refine (value alike).bind_eq fun v => ?_
      exact ih.bind_eq fun _ => .refl _

theorem group (respects : a.Respects view) (alike : Stream.Alike view stream other) :
    Agree (Stream.Alike view) (a.group stream) (a.group other) := by
  refine (keyed (respects.byNumber 0) _ alike).bind fun entries entries' members => ?_
  have gathered (groups groups' : Dictionary Value Stream)
      (grouped : List.Forall₂ (Grouped view) groups groups') :
      List.Forall₂ (Grouped view) (entries.foldl Application.intoGroup groups)
        (entries'.foldl Application.intoGroup groups') := by
    induction members generalizing groups groups' with
    | nil => exact grouped
    | cons first _ ih => exact ih _ _ (intoGroup grouped first)
  refine (groupValues (respects.byNumber 1) (gathered [] [] .nil)).bind_eq fun values => ?_
  exact .pure (.refl _)

end Application.Respects

/-! Steps that send traversers through sub-traversals. -/

namespace Application.Respects

variable {a : Application} {t u : Traverser} {stream other : Stream}

theorem runAll (alike : t.Alike view u) {children : List Child}
    (respect : ∀ child ∈ children, child.Respects view) :
    Agree (Stream.Alike view) (Application.runAll t children) (Application.runAll u children) := by
  induction children with
  | nil => exact .pure .nil
  | cons child rest ih =>
      have others := ih fun other member => respect other (List.mem_cons_of_mem _ member)
      refine ((respect child List.mem_cons_self).one alike).bind fun _ _ found => ?_
      exact others.bind fun _ _ more => .pure (List.rel_append found more)

theorem runFirst (alike : t.Alike view u) {children : List Child}
    (respect : ∀ child ∈ children, child.Respects view) :
    Agree (Stream.Alike view) (Application.runFirst t children)
      (Application.runFirst u children) := by
  induction children with
  | nil => exact .pure .nil
  | cons child rest ih =>
      refine ((respect child List.mem_cons_self).one alike).bind fun _ _ found => ?_
      rw [found.isEmpty_eq]
      split
      · exact ih fun other member => respect other (List.mem_cons_of_mem _ member)
      · exact .pure found

theorem union (respects : a.Respects view) (alike : Stream.Alike view stream other) :
    Agree (Stream.Alike view) (a.union stream) (a.union other) :=
  .forEach (fun _ _ same => runAll same respects.children) alike

theorem coalesce (respects : a.Respects view) (alike : Stream.Alike view stream other) :
    Agree (Stream.Alike view) (a.coalesce stream) (a.coalesce other) :=
  .forEach (fun _ _ same => runFirst same respects.children) alike

theorem optional (respects : a.Respects view) (alike : Stream.Alike view stream other) :
    Agree (Stream.Alike view) (a.optional stream) (a.optional other) := by
  refine respects.child 0 fun child respectsChild => .forEach (fun t u same => ?_) alike
  refine (respectsChild.one same).bind fun _ _ found => ?_
  rw [found.isEmpty_eq]
  split
  · exact .pure (.one same)
  · exact .pure found

theorem flatMap (respects : a.Respects view) (alike : Stream.Alike view stream other) :
    Agree (Stream.Alike view) (a.flatMap stream) (a.flatMap other) :=
  respects.child 0 fun _ respectsChild => .forEach (fun _ _ same => respectsChild.one same) alike

theorem sideEffect (respects : a.Respects view) (alike : Stream.Alike view stream other) :
    Agree (Stream.Alike view) (a.sideEffect stream) (a.sideEffect other) :=
  respects.child 0 fun _ respectsChild => .forEach (fun _ _ same =>
    (respectsChild.one same).bind fun _ _ _ => .pure (.one same)) alike

theorem map (respects : a.Respects view) (alike : Stream.Alike view stream other) :
    Agree (Stream.Alike view) (a.map stream) (a.map other) := by
  unfold Application.map
  split
  · exact .mapEach_object (fun t u same => by rw [same]) alike
  · refine respects.child 0 fun child respectsChild => .forEach (fun t u same => ?_) alike
    refine (respectsChild.first same).bind_eq fun found => ?_
    cases found with
    | none => exact .pure .nil
    | some v => exact .pure (.one (same.split v))

theorem branch (respects : a.Respects view) (index : Nat) (alike : t.Alike view u) :
    Agree (Stream.Alike view) (a.branch index t) (a.branch index u) := by
  unfold Application.branch
  split
  · next child found => exact (respects.children child (List.mem_of_getElem? found)).one alike
  · exact .pure (.one alike)

theorem pick (alike : t.Alike view u) (choice : Value) {options : List Modulation}
    (respect : ∀ m ∈ options, ∀ child ∈ m.children, child.Respects view) :
    Agree (Stream.Alike view) (Application.pick t choice options)
      (Application.pick u choice options) := by
  induction options with
  | nil => exact .pure (.one alike)
  | cons option rest ih =>
      refine .after _ fun value => ?_
      split
      · split
        · next child more chosen =>
            exact (respect option List.mem_cons_self child (by simp [chosen])).one alike
        · exact .throw _
      · exact ih fun m member => respect m (List.mem_cons_of_mem _ member)

theorem chooseOne (respects : a.Respects view) (alike : t.Alike view u) :
    Agree (Stream.Alike view) (a.chooseOne t) (a.chooseOne u) := by
  unfold Application.chooseOne
  rw [alike.object]
  split
  · split
    · exact respects.child 0 fun _ respectsChild => respectsChild.one alike
    · exact respects.branch 1 alike
  · next choice _ only =>
      have respectsChoice := respects.children choice (by simp [only])
      refine (respectsChoice.first alike).bind_eq fun found => ?_
      exact pick alike _ fun m member => respects.modulations m (List.mem_filter.mp member).1
  · refine respects.child 0 fun _ respectsCondition =>
      (respectsCondition.hasResult alike).bind_eq fun holds => ?_
    split
    · exact respects.child 1 fun _ respectsChild => respectsChild.one alike
    · exact respects.branch 2 alike

theorem choose (respects : a.Respects view) (alike : Stream.Alike view stream other) :
    Agree (Stream.Alike view) (a.choose stream) (a.choose other) :=
  .forEach (fun _ _ same => respects.chooseOne same) alike

end Application.Respects

namespace Application.Loop

/-- The sub-traversals of a loop respect a view. -/
structure Respects (view : View) (loop : Loop) : Prop where
  body : loop.body.Respects view
  leaving : ∀ condition before, loop.until_ = some (.holds condition, before) →
    condition.Respects view
  emitting : ∀ condition before, loop.emit = some (some condition, before) →
    condition.Respects view

/-- Results that look the same, and traversers that go on and look the same. -/
def SiftedAlike (view : View) (x y : Stream × Stream) : Prop :=
  Stream.Alike view x.1 y.1 ∧ Stream.Alike view x.2 y.2

namespace Respects

variable {loop : Loop} {t u : Traverser} {stream other : Stream}

theorem leaves (respects : loop.Respects view) (before : Bool) (alike : t.Alike view u) :
    Agree Eq (loop.leaves before t) (loop.leaves before u) := by
  unfold Loop.leaves
  split
  · next condition asked found =>
      split
      · exact (respects.leaving _ _ found).hasResult alike
      · exact .refl _
  · exact .refl _

theorem emits (respects : loop.Respects view) (before : Bool) (alike : t.Alike view u) :
    Agree Eq (loop.emits before t) (loop.emits before u) := by
  unfold Loop.emits
  split
  · next condition asked found =>
      split
      · split
        · exact (respects.emitting _ _ found).hasResult alike
        · exact .refl _
      · exact .refl _
  · exact .refl _

theorem sift {f : Traverser → Exec (Stream × Stream)}
    (each : ∀ t u, t.Alike view u → Agree (SiftedAlike view) (f t) (f u))
    (alike : Stream.Alike view stream other) :
    Agree (SiftedAlike view) (Loop.sift f stream) (Loop.sift f other) := by
  induction alike with
  | nil => exact .pure ⟨.nil, .nil⟩
  | cons first _ ih =>
      refine (each _ _ first).bind fun _ _ one => ih.bind fun _ _ more => ?_
      exact .pure ⟨List.rel_append one.1 more.1, List.rel_append one.2 more.2⟩

theorem stay (respects : loop.Respects view) (before : Bool) (alike : t.Alike view u) :
    Agree (SiftedAlike view) (loop.stay before t) (loop.stay before u) := by
  refine (respects.leaves before alike).bind_eq fun leaving => ?_
  split
  · exact .pure ⟨.one alike.exitLoop, .nil⟩
  · refine (respects.emits before alike).bind_eq fun emitting => ?_
    split
    · exact .pure ⟨.one alike.exitLoop, .one alike⟩
    · exact .pure ⟨.nil, .one alike⟩

theorem pass (respects : loop.Respects view) (alike : t.Alike view u) :
    Agree (SiftedAlike view) (loop.pass t) (loop.pass u) := by
  refine (respects.body.one alike).bind fun results results' found => ?_
  have counted : SiftedAlike view ([], results.map (·.countLoop))
      ([], results'.map (·.countLoop)) := by
    refine ⟨.nil, ?_⟩
    exact List.rel_map (fun _ _ same => same.countLoop) found
  cases found with
  | nil =>
      split
      · exact .pure ⟨.one alike.exitLoop, .nil⟩
      · exact .pure counted
  | cons _ _ => exact .pure counted

theorem settle (respects : loop.Respects view) (alike : t.Alike view u) :
    Agree (SiftedAlike view) (loop.settle t) (loop.settle u) := by
  unfold Loop.settle Loop.isDone
  rw [alike.loopCount]
  split
  · exact .pure ⟨.one alike.exitLoop, .nil⟩
  · exact respects.stay false alike

theorem rounds (respects : loop.Respects view) (limit left : Nat)
    (alike : Stream.Alike view stream other) :
    Agree (Stream.Alike view) (loop.rounds limit left stream) (loop.rounds limit left other) := by
  induction left generalizing stream other with
  | zero =>
      unfold Loop.rounds
      refine (sift (fun _ _ same => respects.stay true same) alike).bind fun x y sifted => ?_
      obtain ⟨early, next⟩ := x
      obtain ⟨early', next'⟩ := y
      dsimp only
      rw [sifted.2.isEmpty_eq]
      split
      · exact .pure sifted.1
      · exact .throw _
  | succ left ih =>
      unfold Loop.rounds
      refine (sift (fun _ _ same => respects.stay true same) alike).bind fun x y sifted => ?_
      obtain ⟨early, next⟩ := x
      obtain ⟨early', next'⟩ := y
      dsimp only
      rw [sifted.2.isEmpty_eq]
      split
      · exact .pure sifted.1
      · refine (sift (fun _ _ same => respects.pass same) sifted.2).bind fun _ _ passed => ?_
        refine (sift (fun _ _ same => respects.settle same) passed.2).bind fun _ _ settled => ?_
        refine (ih settled.2).bind fun _ _ more => .pure ?_
        exact List.rel_append (List.rel_append (List.rel_append sifted.1 passed.1) settled.1) more

end Respects

end Application.Loop

namespace Application.Respects

variable {a : Application} {t u : Traverser} {stream other : Stream}

theorem repeat_ (respects : a.Respects view) (limit : Nat)
    (alike : Stream.Alike view stream other) :
    Agree (Stream.Alike view) (a.repeat_ limit stream) (a.repeat_ limit other) := by
  refine respects.child 0 fun body respectsBody => .after _ fun times => ?_
  have entered : Stream.Alike view (stream.map (·.enterLoop)) (other.map (·.enterLoop)) := by
    exact List.rel_map (fun _ _ same => same.enterLoop) alike
  refine Loop.Respects.rounds ⟨respectsBody, ?_, ?_⟩ limit limit entered
  · intro condition before found
    obtain ⟨m, isLast, made⟩ := Option.map_eq_some_iff.mp found
    have respectAll := respects.last isLast
    cases children : m.children with
    | nil => simp [children] at made
    | cons first rest =>
        simp only [children, Prod.mk.injEq, LoopEnd.holds.injEq] at made
        exact made.1 ▸ respectAll first (by simp [children])
  · intro condition before found
    obtain ⟨m, isLast, made⟩ := Option.map_eq_some_iff.mp found
    simp only [Prod.mk.injEq] at made
    exact respects.last isLast condition (List.mem_of_mem_head? made.1)

end Application.Respects

/-! Steps that remember, compute formulas, and change the graph. -/

namespace Exec.Agree

variable {t u : Traverser} {stream other : Stream}

theorem loops (alike : Stream.Alike view stream other) :
    Agree (Stream.Alike view) (Application.loops stream) (Application.loops other) :=
  mapEach (fun _ _ same => pure (by rw [same.loopCount])) alike

theorem aggregate (a : Application) (alike : Stream.Alike view stream other) :
    Agree (Stream.Alike view) (a.aggregate stream) (a.aggregate other) := by
  refine after _ fun key => ?_
  rw [alike.objects_eq]
  exact after _ fun _ => pure alike

theorem cap (a : Application) : Agree (Stream.Alike view) a.cap a.cap := by
  refine after _ fun key => after _ fun world => ?_
  split
  · exact pure (Stream.Alike.refl _)
  · exact throw _

theorem index (alike : Stream.Alike view stream other) :
    Agree (Stream.Alike view) (Application.index stream) (Application.index other) :=
  mapEach_object (fun t u same => by rw [same]) alike

theorem constant (a : Application) (alike : Stream.Alike view stream other) :
    Agree (Stream.Alike view) (a.constant stream) (a.constant other) :=
  after _ fun _ => mapEach_object (fun _ _ _ => rfl) alike

theorem inject (a : Application) (alike : Stream.Alike view stream other) :
    Agree (Stream.Alike view) (a.inject stream) (a.inject other) :=
  pure (List.rel_append (Stream.Alike.refl _) alike)

theorem addV (a : Application) (alike : Stream.Alike view stream other) :
    Agree (Stream.Alike view) (a.addV stream) (a.addV other) := by
  unfold Application.addV
  dsimp only
  split
  · exact after _ fun _ => mapEach_object (fun _ _ _ => rfl) alike
  · exact after _ fun _ => mapEach_object (fun _ _ _ => rfl) alike

theorem drop (a : Application) (alike : Stream.Alike view stream other) :
    Agree (Stream.Alike view) (a.drop stream) (a.drop other) := by
  refine forEach (fun t u same => ?_) alike
  have told : a.dropOne t = a.dropOne u := by
    unfold Application.dropOne
    rw [same.object]
  rw [told]
  exact after _ fun _ => pure .nil

end Exec.Agree

namespace Application.Respects

variable {a : Application} {t u : Traverser} {stream other : Stream}

theorem as_ (respects : a.Respects view) (kind : a.kind = .as_)
    (alike : Stream.Alike view stream other) :
    Agree (Stream.Alike view) (a.as_ stream) (a.as_ other) := by
  have admitted : ∀ label ∈ a.labels, view.labels label := by
    intro label member
    obtain ⟨argument, given, isLabel⟩ := List.mem_filterMap.mp member
    have known := respects.admitted.given _ given
    cases argument with
    | label s =>
        cases isLabel
        exact known.2 kind
    | _ => cases isLabel
  have labelled (labels : List String) (admitted : ∀ label ∈ labels, view.labels label)
      (t u : Traverser) (same : t.Alike view u) :
      (labels.foldl Traverser.addLabel t).Alike view (labels.foldl Traverser.addLabel u) := by
    induction labels generalizing t u with
    | nil => exact same
    | cons label rest ih =>
        exact ih (fun other member => admitted other (List.mem_cons_of_mem _ member)) _ _
          (same.addLabel (admitted label List.mem_cons_self))
  refine .pure ?_
  exact List.rel_map (fun t u same => labelled a.labels admitted t u same) alike

theorem edgeEnd {m : Option Modulation} (looks : ∀ m' ∈ m, m'.kind.looksUp = true)
    (admitted : ∀ m' ∈ m, view.Admits m'.kind m'.arguments) (alike : t.Alike view u) :
    Agree Eq (Application.edgeEnd m t) (Application.edgeEnd m u) := by
  cases m with
  | none =>
      unfold Application.edgeEnd
      rw [alike.object]
      exact .refl _
  | some m =>
      refine (admitted m rfl).text (looks m rfl) 0 fun name reads => ?_
      rw [alike.named? reads .last]
      exact .refl _

theorem addE (respects : a.Respects view) (alike : Stream.Alike view stream other) :
    Agree (Stream.Alike view) (a.addE stream) (a.addE other) := by
  have known {kind : StepKind} (m : Modulation) (found : m ∈ a.last? kind) :
      m ∈ a.modulations ∧ m.kind = kind := by
    have member := List.mem_filter.mp (List.mem_of_getLast? found)
    exact ⟨member.1, beq_iff_eq.mp member.2⟩
  refine .after _ fun label => .mapEach (fun t u same => ?_) alike
  have source : Agree Eq (Application.edgeEnd (a.last? .from_) t)
      (Application.edgeEnd (a.last? .from_) u) :=
    edgeEnd (fun m found => by rw [(known m found).2]; rfl)
      (fun m found => respects.modulating m (known m found).1) same
  have target : Agree Eq (Application.edgeEnd (a.last? .to_) t)
      (Application.edgeEnd (a.last? .to_) u) :=
    edgeEnd (fun m found => by rw [(known m found).2]; rfl)
      (fun m found => respects.modulating m (known m found).1) same
  refine source.bind_eq fun x => ?_
  exact target.bind_eq fun _ => .refl _

theorem variableNumber {by_ : Option Child} (respects : ∀ child ∈ by_, child.Respects view)
    (name : String) (reads : view.reads name) (alike : t.Alike view u) :
    Agree Eq (Application.variableNumber by_ name t) (Application.variableNumber by_ name u) := by
  unfold Application.variableNumber
  dsimp only
  rw [alike.object, alike.named? reads .last]
  split
  all_goals
    refine .after _ fun current => ?_
    cases current with
    | none => cases by_ <;> exact .refl _
    | some value =>
        cases by_ with
        | none => exact .refl _
        | some child =>
            exact ((respects child rfl).first (alike.split value)).bind_eq fun _ => .refl _

theorem bindings {bys : List (Option Child)}
    (respect : ∀ choice ∈ bys, ∀ child ∈ choice, child.Respects view)
    (reads : ∀ name, view.reads name) (alike : t.Alike view u) (index : Nat)
    (names : List String) :
    Agree Eq (Application.bindings bys t index names) (Application.bindings bys u index names) := by
  induction names generalizing index with
  | nil => exact .refl _
  | cons name rest ih =>
      refine (variableNumber (byAt respect index) name (reads name) alike).bind_eq fun x => ?_
      exact (ih (index + 1)).bind_eq fun _ => .refl _

theorem math (respects : a.Respects view) (kind : a.kind = .math)
    (alike : Stream.Alike view stream other) :
    Agree (Stream.Alike view) (a.math stream) (a.math other) := by
  have reads : ∀ name, view.reads name := by
    have suits := respects.admitted.suits
    rwa [kind] at suits
  refine .after _ fun value => ?_
  split
  · refine .after _ fun names => .mapEach (fun t u same => ?_) alike
    exact (bindings (fun _ => respects.bys) reads same 0 names).bind_eq fun _ => .refl _
  · exact .throw _

theorem keyFrom (a : Application) (index : Nat) (alike : t.Alike view u) (arguments : List Argument)
    {children : List Child} (respect : ∀ child ∈ children, child.Respects view) {α β : Type}
    {R : α → β → Prop} {f : String × List Child → Exec α} {g : String × List Child → Exec β}
    (next : ∀ key rest, (∀ child ∈ rest, child.Respects view) →
      Agree R (f (key, rest)) (g (key, rest))) :
    Agree R (a.keyFrom index t arguments children >>= f)
      (a.keyFrom index u arguments children >>= g) := by
  unfold Application.keyFrom
  split
  · exact next _ _ respect
  · exact next _ _ respect
  · exact .throw _
  · next child rest =>
      rw [bind_assoc, bind_assoc]
      refine ((respect child List.mem_cons_self).first alike).bind_eq fun found => ?_
      split
      · exact next _ _ fun other member => respect other (List.mem_cons_of_mem _ member)
      · exact .throw _
  · exact .throw _
  · exact .throw _

theorem valueFrom (a : Application) (index : Nat) (key : String) (alike : t.Alike view u)
    (arguments : List Argument) {children : List Child}
    (respect : ∀ child ∈ children, child.Respects view) :
    Agree Eq (a.valueFrom index key t arguments children)
      (a.valueFrom index key u arguments children) := by
  unfold Application.valueFrom
  split
  · exact .refl _
  · next child rest =>
      exact ((respect child List.mem_cons_self).first alike).bind_eq fun _ => .refl _
  · exact .refl _
  · exact .refl _

theorem property (respects : a.Respects view) (alike : Stream.Alike view stream other) :
    Agree (Stream.Alike view) (a.property stream) (a.property other) := by
  refine .forEach (fun t u same => ?_) alike
  have written : Agree Eq (a.writeProperty t) (a.writeProperty u) := by
    unfold Application.writeProperty
    refine keyFrom a _ same _ respects.children fun key rest respectRest => ?_
    refine (valueFrom a _ key same _ respectRest).bind_eq fun value => ?_
    rw [same.object]
    exact .refl _
  exact written.bind fun _ _ _ => .pure (.one same)

theorem perform (respects : a.Respects view) (engine : Engine)
    (alike : Stream.Alike view stream other) :
    Agree (Stream.Alike view) (a.perform engine stream) (a.perform engine other) := by
  have suits := respects.admitted.suits
  unfold Application.perform
  cases kind : a.kind with
  | v => exact .vertices alike
  | e => exact .throw _
  | addV => exact .addV a alike
  | addE => exact respects.addE alike
  | aggregate => exact .aggregate a alike
  | and => exact respects.and alike
  | as_ => exact respects.as_ kind alike
  | barrier => exact .pure alike
  | bothE => exact .edges a _ alike
  | cap => exact .cap a
  | choose => exact respects.choose alike
  | coalesce => exact respects.coalesce alike
  | constant => exact .constant a alike
  | count => exact .count a alike
  | dedup => exact respects.dedup kind alike
  | drop => exact .drop a alike
  | flatMap => exact respects.flatMap alike
  | fold => exact .fold alike
  | group => exact respects.group alike
  | has => exact .has a alike
  | hasKey => exact .hasKey a alike
  | hasLabel => exact .hasLabel a alike
  | hasNot => exact .hasNot a alike
  | id => exact .id alike
  | identity => exact .pure alike
  | inE => exact .edges a _ alike
  | inV => exact .endpoint a (fun _ _ _ _ _ => rfl) alike
  | index => exact .index alike
  | inject => exact .inject a alike
  | is_ => exact .matching a alike
  | key => exact .propertyPart a _ alike
  | label => exact .label a alike
  | limit => exact .limit a alike
  | local_ => exact respects.flatMap alike
  | loops => exact .loops alike
  | map => exact respects.map alike
  | math => exact respects.math kind alike
  | max => exact .reduce a alike
  | mean => exact .reduce a alike
  | min => exact .reduce a alike
  | not => exact respects.not alike
  | optional => exact respects.optional alike
  | or => exact respects.or alike
  | order => exact respects.order engine alike
  | otherV => exact .otherV a alike
  | outE => exact .edges a _ alike
  | outV => exact .endpoint a (fun _ _ _ _ _ => rfl) alike
  | path => exact .path (by rwa [kind] at suits) alike
  | project => exact respects.project alike
  | properties => exact .properties a alike
  | property => exact respects.property alike
  | range => exact .range a alike
  | repeat_ => exact respects.repeat_ engine.loopLimit alike
  | select => exact respects.select kind alike
  | sideEffect => exact respects.sideEffect alike
  | simplePath => exact .simplePath (by rwa [kind] at suits) alike
  | skip => exact .skip a alike
  | sum => exact .reduce a alike
  | tail => exact .tail a alike
  | unfold => exact .unfold alike
  | union => exact respects.union alike
  | value => exact .propertyPart a _ alike
  | valueMap => exact .valueMap a alike
  | values => exact .values a alike
  | where_ => exact respects.where_ kind alike
  | by_ | emit | from_ | option | times | to_ | until_ | with_ => exact .throw _

end Application.Respects

/-! Plans. -/

namespace View

mutual

/-- All steps of a plan are within the view. -/
def AdmitsPlan (view : View) : Plan → Prop
  | .mk stages pending => view.AdmitsStages stages ∧ view.AdmitsModulators pending

def AdmitsStages (view : View) : List Stage → Prop
  | [] => True
  | stage :: rest => view.AdmitsStage stage ∧ view.AdmitsStages rest

def AdmitsStage (view : View) : Stage → Prop
  | .vertices | .edges | .addVertex _ => True
  | .apply step children modulators =>
      view.Admits step.kind step.arguments ∧ view.AdmitsPlans children ∧
        view.AdmitsModulators modulators

def AdmitsPlans (view : View) : List Plan → Prop
  | [] => True
  | plan :: rest => view.AdmitsPlan plan ∧ view.AdmitsPlans rest

def AdmitsModulators (view : View) : List Modulator → Prop
  | [] => True
  | modulator :: rest => view.AdmitsModulator modulator ∧ view.AdmitsModulators rest

def AdmitsModulator (view : View) : Modulator → Prop
  | .mk step children _ => view.Admits step.kind step.arguments ∧ view.AdmitsPlans children

end

end View

namespace Plan

mutual

theorem run_respects (engine : Engine) : (plan : Plan) → view.AdmitsPlan plan →
    ∀ stream other, Stream.Alike view stream other →
      Agree (Stream.Alike view) (plan.run engine stream) (plan.run engine other)
  | .mk stages [], admitted, stream, other, alike =>
      runStages_respects engine stages admitted.1 stream other alike
  | .mk _ (.mk _ _ _ :: _), _, _, _, _ => .throw _
termination_by structural plan => plan

theorem runStages_respects (engine : Engine) : (stages : List Stage) → view.AdmitsStages stages →
    ∀ stream other, Stream.Alike view stream other →
      Agree (Stream.Alike view) (runStages engine stages stream) (runStages engine stages other)
  | [], _, _, _, alike => .pure alike
  | stage :: rest, admitted, _, _, alike =>
      (runStage_respects engine stage admitted.1 _ _ alike).bind fun _ _ next =>
        runStages_respects engine rest admitted.2 _ _ next
termination_by structural stages => stages

theorem runStage_respects (engine : Engine) : (stage : Stage) → view.AdmitsStage stage →
    ∀ stream other, Stream.Alike view stream other →
      Agree (Stream.Alike view) (runStage engine stage stream) (runStage engine stage other)
  | .vertices, _, _, _, _ => .after _ fun _ => .pure (Stream.Alike.refl _)
  | .edges, _, _, _, _ => .after _ fun _ => .pure (Stream.Alike.refl _)
  | .addVertex _, _, _, _, _ => .after _ fun _ => .pure (Stream.Alike.refl _)
  | .apply _ children modulators, admitted, _, _, alike =>
      have modulate := modulations_respect engine modulators admitted.2.2
      have respects : Application.Respects view _ :=
        ⟨admitted.1, runChildren_respect engine children admitted.2.1,
          fun m member => (modulate m member).1, fun m member => (modulate m member).2⟩
      respects.perform engine alike
termination_by structural stage => stage

theorem runChildren_respect (engine : Engine) : (children : List Plan) → view.AdmitsPlans children →
    ∀ child ∈ runChildren engine children, child.Respects view
  | [], _, _, member => nomatch member
  | plan :: rest, admitted, child, member => by
      rcases List.mem_cons.mp member with here | there
      · subst here
        exact run_respects engine plan admitted.1
      · exact runChildren_respect engine rest admitted.2 child there
termination_by structural children => children

theorem modulations_respect (engine : Engine) : (modulators : List Modulator) →
    view.AdmitsModulators modulators → ∀ m ∈ modulations engine modulators,
      view.Admits m.kind m.arguments ∧ ∀ child ∈ m.children, child.Respects view
  | [], _, _, member => nomatch member
  | modulator :: rest, admitted, m, member => by
      rcases List.mem_cons.mp member with here | there
      · subst here
        exact modulation_respects engine modulator admitted.1
      · exact modulations_respect engine rest admitted.2 m there
termination_by structural modulators => modulators

theorem modulation_respects (engine : Engine) : (modulator : Modulator) →
    view.AdmitsModulator modulator →
      view.Admits (modulation engine modulator).kind (modulation engine modulator).arguments ∧
        ∀ child ∈ (modulation engine modulator).children, child.Respects view
  | .mk _ children _, admitted => ⟨admitted.1, runChildren_respect engine children admitted.2⟩
termination_by structural modulator => modulator

end

end Plan

end PropertyGraph
