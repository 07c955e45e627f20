import PropertyGraph.Proofs.Cypher.Rows
import PropertyGraph.Proofs.Cypher.WriteSoundness

/-!
Scripts of RETURN clauses: traversers that know the variables of the scope become rows with the
columns of the clause.
-/

namespace PropertyGraph

namespace ReturnClause

/-- The items that a clause with aggregates groups by. -/
def keys (r : ReturnClause) : List ReturnItem :=
  r.items.filter fun item => !item.expression.isAggregate

variable {r : ReturnClause}

theorem keys_listed : ∀ key ∈ r.keys.map ReturnItem.column, key ∈ r.items.map ReturnItem.column :=
  (List.filter_sublist.map _).subset

theorem keys_ne_nil {item : ReturnItem} (member : item ∈ r.items)
    (plain : item.expression.isAggregate = false) : r.keys.map ReturnItem.column ≠ [] := by
  have kept : item ∈ r.keys := List.mem_filter.mpr ⟨member, by rw [plain]; rfl⟩
  exact List.ne_nil_of_mem (List.mem_map_of_mem kept)

end ReturnClause

namespace Cypher

open Exec Plan Script Scripting

variable {b : Bindings} {operations : Ops} {l l' : Live} {R S : Traverser → Prop}
  {names : List String}

namespace Passes

theorem valueMap : Passes (Count 1 R) [.append .valueMap [.literal (.bool true)]]
    (Count 1 Anything) := by
  refine flat ⟨rfl, by decide⟩ (by decide) rfl (.literal (.bool true)) rfl ?_
  intro engine stream count
  have moves : ∀ t ∈ stream, ∀ v, Anything (t.split v) := fun _ _ _ => trivial
  have sound := Application.valueMap_sound ⟨.valueMap, [.literal (.bool true)], [], []⟩ moves
  rwa [count.length] at sound

theorem endId (step : Op Script) (ends : step = .append .inV [] ∨ step = .append .outV []) :
    Passes (Count 1 R) [step, .append .id []] (Count 1 Anything) := by
  have endpoint (a : Application) (choose : EdgeRef → Traverser → VertexId) (stream : Stream)
      (count : Count 1 R stream) : Exec.Sound (Count 1 Anything) (a.endpoint choose stream)
        (a.endpoint choose stream) := by
    refine (Application.endpoint_sound (S := Anything) a choose fun _ _ _ => trivial).imp ?_
    exact fun _ reached => count.length ▸ reached
  have first : Passes (Count 1 R) [step] (Count 1 Anything) := by
    rcases ends with rfl | rfl
    · exact bare ⟨rfl, by decide⟩ (by decide) rfl fun _ stream count => endpoint _ _ stream count
    · exact bare ⟨rfl, by decide⟩ (by decide) rfl fun _ stream count => endpoint _ _ stream count
  exact first.append .id

end Passes

/-- Relationships are projected, whatever stands there. -/
theorem relationshipColumn_passes {Pre Post : Stream → Prop}
    (kept : ∀ stream out, Pre stream →
      All R stream ∧ (Count stream.length Anything out → Post out)) :
    Passes Pre relationshipColumn Post := by
  refine .project (by decide) (fun op member => ?_) (fun _ _ _ _ => trivial) kept
  rcases List.mem_cons.mp member with rfl | member
  · exact .by_ .valueMap
  · rcases List.mem_cons.mp member with rfl | member
    · exact .by_ (.endId _ (.inl rfl))
    · exact List.mem_singleton.mp member ▸ .by_ (.endId _ (.inr rfl))

theorem columnOps_passes {e : Expression} (compiled : columnOps b e = .ok operations)
    (performs : Performs operations) :
    Passes (Count 1 fun t => t.Knows b []) operations (Count 1 Anything) := by
  unfold columnOps at compiled
  split at compiled
  · next name =>
      obtain ⟨kind, declared, compiled⟩ := bind_eq_ok.mp compiled
      have known := kindOf_eq declared
      cases kind with
      | node =>
          cases compiled
          exact (selectOne_passes known nofun).append .valueMap
      | relationship =>
          cases compiled
          exact (selectOne_passes known nofun).append (relationshipColumn_passes fun _ _ count =>
            ⟨count.all, fun reached => count.length ▸ reached⟩)
      | relationships =>
          cases compiled
          have edges : Passes (Count 1 fun t => t.Knows b [])
              [.selectLabel .all name, .append .unfold []] (All Anything) :=
            (Passes.selectAll name fun _ _ _ => trivial).append .unfold
          have projected : Passes (All Anything) relationshipColumn (All Anything) :=
            relationshipColumn_passes fun _ _ all => ⟨all, fun count => count.all⟩
          exact (edges.append projected).append (Passes.anyFold.before fun _ _ => trivial)
  · exact (valueOps_passes _ compiled performs).before knows_binds

/-- A projection that is not refused has columns. -/
theorem named_of_project (member : .project names ∈ operations)
    (performed : performAll operations l = .ok l') : names ≠ [] := by
  rintro rfl
  obtain ⟨before, after, refused⟩ := Performs.performed_one member performed
  cases refused

/-- A `by` for each item of a clause. -/
def byEach (compile : ReturnItem → Except CompileFault Ops) :
    List ReturnItem → Except CompileFault Ops
  | [] => .ok []
  | item :: rest => do
      let inside ← compile item
      return .nested .by_ [.of inside] :: (← byEach compile rest)

theorem columns_eq (b : Bindings) (items : List ReturnItem) :
    columns b items = byEach (fun item => columnOps b item.expression) items := by
  induction items with
  | nil => rfl
  | cons item rest ih => rw [columns, byEach, ih]

theorem inputs_eq (b : Bindings) (items : List ReturnItem) :
    inputs b items = byEach (inputOps b) items := by
  induction items with
  | nil => rfl
  | cons item rest ih => rw [inputs, byEach, ih]

theorem byEach_parts {compile : ReturnItem → Except CompileFault Ops} {items : List ReturnItem}
    {bys : Ops} (compiled : byEach compile items = .ok bys)
    (performed : performAll bys l = .ok l') :
    List.Forall₂ (fun item op => ∃ inside, compile item = .ok inside ∧ Performs inside ∧
      op = .nested .by_ [.of inside]) items bys := by
  have performs (inside : Ops) (member : .nested .by_ [.of inside] ∈ bys) : Performs inside :=
    Performs.within performed member List.mem_cons_self
  clear performed
  induction items generalizing bys with
  | nil =>
      cases compiled
      exact .nil
  | cons item rest ih =>
      obtain ⟨inside, first, compiled⟩ := bind_eq_ok.mp compiled
      obtain ⟨others, several, same⟩ := bind_eq_ok.mp compiled
      cases same
      exact .cons ⟨inside, first, performs inside List.mem_cons_self, rfl⟩
        (ih several fun inside member => performs inside (List.mem_cons_of_mem _ member))

theorem byEach_serve {compile : ReturnItem → Except CompileFault Ops} {items : List ReturnItem}
    {bys : Ops} (passes : ∀ item inside, compile item = .ok inside → Performs inside →
      Passes (Count 1 R) inside (Count 1 Anything))
    (compiled : byEach compile items = .ok bys) (performed : performAll bys l = .ok l') :
    ∀ op ∈ bys, ServesBy R op := by
  have parts := byEach_parts compiled performed
  clear compiled performed
  induction parts with
  | nil => exact nofun
  | cons part _ ih =>
      obtain ⟨inside, made, performs, rfl⟩ := part
      exact List.forall_mem_cons.mpr ⟨.by_ (passes _ inside made performs), ih⟩

theorem columns_serve {items : List ReturnItem} {bys : Ops} (compiled : columns b items = .ok bys)
    (performed : performAll bys l = .ok l') : ∀ op ∈ bys, ServesBy (fun t => t.Knows b []) op := by
  rw [columns_eq] at compiled
  exact byEach_serve (fun _ _ => columnOps_passes) compiled performed

theorem inputOps_passes {item : ReturnItem} (compiled : inputOps b item = .ok operations)
    (performs : Performs operations) :
    Passes (Count 1 fun t => t.Knows b []) operations (Count 1 Anything) := by
  have plain {e : Expression} (compiled : inputOps.plain b item e = .ok operations) :
      Passes (Count 1 fun t => t.Knows b []) operations (Count 1 Anything) := by
    unfold inputOps.plain at compiled
    split at compiled
    · cases compiled
    · exact columnOps_passes compiled performs
  unfold inputOps at compiled
  split at compiled
  · cases compiled
    exact .constant _ fun _ _ => trivial
  · split at compiled
    · split at compiled
      · exact columnOps_passes compiled performs
      · cases compiled
    · exact plain compiled
  · exact plain compiled

theorem inputs_serve {items : List ReturnItem} {bys : Ops} (compiled : inputs b items = .ok bys)
    (performed : performAll bys l = .ok l') : ∀ op ∈ bys, ServesBy (fun t => t.Knows b []) op := by
  rw [inputs_eq] at compiled
  exact byEach_serve (fun _ _ => inputOps_passes) compiled performed

theorem sortKeys_parts {items : List ReturnItem} {order : List SortItem} {bys : Ops}
    (compiled : sortKeys b items order = .ok bys) (performed : performAll bys l = .ok l') :
    List.Forall₂ (fun item op => ∃ inside,
      valueOps b (resolveAlias items item.expression) = .ok inside ∧ Performs inside ∧
        op = .byOrder (.of inside) (sortOrder item)) order bys := by
  have performs (inside : Ops) (direction : SortOrder)
      (member : .byOrder (.of inside) direction ∈ bys) : Performs inside :=
    Performs.within performed member List.mem_cons_self
  clear performed
  induction order generalizing bys with
  | nil =>
      cases compiled
      exact .nil
  | cons item rest ih =>
      obtain ⟨key, first, compiled⟩ := bind_eq_ok.mp compiled
      obtain ⟨others, several, same⟩ := bind_eq_ok.mp compiled
      cases same
      obtain ⟨inside, compiledInside, rfl⟩ := map_eq_ok.mp first
      exact .cons ⟨inside, compiledInside, performs inside _ List.mem_cons_self, rfl⟩
        (ih several fun inside direction member =>
          performs inside direction (List.mem_cons_of_mem _ member))

theorem sortKeys_serve {items : List ReturnItem} {order : List SortItem} {bys : Ops}
    (compiled : sortKeys b items order = .ok bys) (performed : performAll bys l = .ok l') :
    ∀ op ∈ bys, ServesBy (fun t => t.Knows b []) op := by
  have parts := sortKeys_parts compiled performed
  clear compiled performed
  induction parts with
  | nil => exact nofun
  | cons part _ ih =>
      obtain ⟨inside, made, performs, rfl⟩ := part
      have values := valueOps_passes _ made performs
      exact List.forall_mem_cons.mpr ⟨.byOrder (values.before knows_binds) _, ih⟩

theorem Passes.column (distinct : names.Nodup) {name : String} (member : name ∈ names) :
    Passes (Count 1 (IsRow names)) [.select [name]] (Count 1 Anything) :=
  .select (fun _ row => row.column distinct member _) (fun _ _ _ _ => trivial)
    fun _ _ count => ⟨count.all, fun reached => count.length ▸ reached⟩

theorem sortColumn_listed {item : SortItem} {column : String}
    (found : sortColumn names item = .ok column) : column ∈ names := by
  have known (wanted : String) (fault : CompileFault)
      (found : (if names.contains wanted then .ok wanted else .error fault) = Except.ok column) :
      column ∈ names := by
    split at found <;> cases found
    next listed => exact List.mem_of_elem_eq_true listed
  exact known _ _ found

theorem columnSortKeys_serve (distinct : names.Nodup) {order : List SortItem} {bys : Ops}
    (compiled : columnSortKeys names order = .ok bys) : ∀ op ∈ bys, ServesBy (IsRow names) op := by
  induction order generalizing bys with
  | nil =>
      cases compiled
      exact nofun
  | cons item rest ih =>
      obtain ⟨column, first, compiled⟩ := bind_eq_ok.mp compiled
      obtain ⟨others, several, same⟩ := bind_eq_ok.mp compiled
      cases same
      exact List.forall_mem_cons.mpr
        ⟨.byOrder (.column distinct (sortColumn_listed first)) _, ih several⟩

theorem sortRows_passes (distinct : names.Nodup) {order : List SortItem}
    (compiled : sortRows names order = .ok operations) :
    Passes (All (IsRow names)) operations (All (IsRow names)) := by
  unfold sortRows at compiled
  split at compiled
  · cases compiled
    exact .nil fun _ all => all
  · obtain ⟨bys, keys, same⟩ := bind_eq_ok.mp compiled
    cases same
    exact .order (columnSortKeys_serve distinct keys)

theorem distinctOps_passes (distinct : Bool) :
    Passes (All R) (distinctOps distinct) (All R) := by
  unfold distinctOps
  split
  · exact .labelled ⟨rfl, by decide⟩ (by decide) rfl [] fun _ _ all =>
      Application.dedup_sound rfl rfl all
  · exact .nil fun _ all => all

theorem projection_passes {Pre : Stream → Prop} {bys : Ops} (named : names ≠ [])
    (serve : ∀ op ∈ bys, ServesBy R op) (all : ∀ stream, Pre stream → All R stream) :
    Passes Pre (.project names :: bys) (All (IsRow names)) :=
  .project named serve (fun _ entries _ given => ⟨entries, rfl, given⟩)
    fun stream _ holds => ⟨all stream holds, fun count => count.all⟩

/-- What is sorted before it is projected. -/
def sortedBefore (b : Bindings) (r : ReturnClause) : Except CompileFault Ops :=
  if r.distinct || r.order.isEmpty then .ok []
  else do return .append .order [] :: (← sortKeys b r.items r.order)

/-- What is sorted as rows. -/
def sortedAfter (names : List String) (r : ReturnClause) : Except CompileFault Ops :=
  if r.distinct then sortRows names r.order else .ok []

theorem plainRows_eq (b : Bindings) (r : ReturnClause) (names : List String) :
    plainRows b r names = do
      let before ← sortedBefore b r
      let columns ← columns b r.items
      let after ← sortedAfter names r
      return before ++ .project names :: columns ++ distinctOps r.distinct ++ after := by
  obtain ⟨distinct, items, order, skip, limit⟩ := r
  cases distinct with
  | true => cases order <;> rfl
  | false =>
      cases order with
      | nil => rfl
      | cons first rest => exact (bind_assoc _ _ _).symm

theorem sortedBefore_passes {r : ReturnClause} (compiled : sortedBefore b r = .ok operations)
    (performed : performAll operations l = .ok l') :
    Passes (Known b []) operations (Known b []) := by
  unfold sortedBefore at compiled
  split at compiled
  · cases compiled
    exact .nil fun _ all => all
  · obtain ⟨bys, keys, same⟩ := bind_eq_ok.mp compiled
    cases same
    obtain ⟨ordered, _, performed⟩ := performed_cons.mp performed
    exact .order (sortKeys_serve keys performed)

/-- The parts of the rows without aggregates, of which neither is refused. -/
theorem plainRows_parts {r : ReturnClause} (compiled : plainRows b r names = .ok operations)
    (performed : performAll operations l = .ok l') :
    ∃ sorts bys after, sortedBefore b r = .ok sorts ∧ columns b r.items = .ok bys ∧
      sortedAfter names r = .ok after ∧ names ≠ [] ∧
      (∃ start stop : Live, performAll sorts start = .ok stop) ∧
      (∃ start stop : Live, performAll bys start = .ok stop) ∧
        operations = sorts ++ .project names :: bys ++ distinctOps r.distinct ++ after := by
  rw [plainRows_eq] at compiled
  obtain ⟨sorts, sorted, compiled⟩ := bind_eq_ok.mp compiled
  obtain ⟨bys, projected, compiled⟩ := bind_eq_ok.mp compiled
  obtain ⟨after, last, same⟩ := bind_eq_ok.mp compiled
  cases same
  have named : names ≠ [] := named_of_project (by simp) performed
  rw [List.append_assoc, List.append_assoc] at performed
  obtain ⟨ordered, orders, performed⟩ := performed_append.mp performed
  obtain ⟨rows, projects, _⟩ := performed_append.mp performed
  obtain ⟨_, _, served⟩ := performed_cons.mp projects
  exact ⟨sorts, bys, after, sorted, projected, last, named, ⟨_, _, orders⟩, ⟨_, _, served⟩, rfl⟩

theorem plainRows_passes {r : ReturnClause} (distinct : names.Nodup)
    (compiled : plainRows b r names = .ok operations)
    (performed : performAll operations l = .ok l') :
    Passes (Known b []) operations (All (IsRow names)) := by
  obtain ⟨sorts, bys, after, sorted, projected, last, named, ⟨_, _, orders⟩, ⟨_, _, served⟩, rfl⟩ :=
    plainRows_parts compiled performed
  have sorts : Passes (All (IsRow names)) after (All (IsRow names)) := by
    unfold sortedAfter at last
    split at last
    · exact sortRows_passes distinct last
    · cases last
      exact .nil fun _ all => all
  have rows := projection_passes named (columns_serve projected served) fun _ all => all
  exact (((sortedBefore_passes sorted orders).append rows).append
    (distinctOps_passes r.distinct)).append sorts

/-- The traverser stands at the list of what such a stream stood at. -/
def Gathers (P : Stream → Prop) (t : Traverser) : Prop :=
  ∃ members, t.object = .list (objects members) ∧ P members

/-- Rows of one group, of which there are some if there are keys. -/
structure IsRows (names keys : List String) (rows : Stream) : Prop where
  all : All (IsRow names) rows
  some_ : keys ≠ [] → rows ≠ []

theorem objects_all {P : Value → Prop} {stream other : Stream}
    (same : objects stream = objects other) (all : All (fun t => P t.object) other) :
    All (fun t => P t.object) stream := by
  intro t member
  have listed : t.object ∈ objects stream := List.mem_map_of_mem member
  rw [same] at listed
  obtain ⟨u, given, equal⟩ := List.mem_map.mp listed
  exact equal ▸ all u given

namespace Passes

variable {keys : List String}

theorem unfoldRows : Passes (Count 1 (Gathers (IsRows names keys))) [.append .unfold []]
    (IsRows names keys) := by
  refine bare ⟨rfl, by decide⟩ (by decide) rfl fun engine stream count => ?_
  obtain ⟨t, rfl, members, place, rows⟩ := count.single
  refine (Application.unfold_sound (S := Anything) fun _ _ _ _ => trivial).imp fun out found => ?_
  have same : objects out = objects members := by
    rw [found.2, List.flatMap_singleton, place]
    rfl
  refine ⟨objects_all (P := fun v => ∃ entries : List (String × Value), v = .record entries ∧
    entries.map (·.1) = names) same rows.all, fun keyed empty => rows.some_ keyed ?_⟩
  rw [empty] at same
  exact List.map_eq_nil_iff.mp same.symm

theorem columnAll (distinct : names.Nodup) {name : String} (member : name ∈ names) :
    Passes (All (IsRow names)) [.select [name]] (All Anything) :=
  .select (fun _ row => row.column distinct member _) (fun _ _ _ _ => trivial)
    fun _ _ all => ⟨all, fun count => count.all⟩

theorem values (distinct : names.Nodup) {name : String} (member : name ∈ names) (once : Bool) :
    Passes (Count 1 (Gathers (IsRows names keys)))
      ([.append .unfold [], .select [name], isKnown] ++ distinctOps once) (All Anything) :=
  ((unfoldRows.after fun _ rows => rows.all).append
    ((columnAll distinct member).append (.is_ _))).append (distinctOps_passes once)

theorem count : Passes (All R) [.append .count []] (Count 1 Anything) :=
  bare ⟨rfl, by decide⟩ (by decide) rfl fun _ stream _ =>
    Application.count_sound (a := ⟨.count, [], [], []⟩) rfl (fun _ => trivial) stream

theorem sum : Passes (All R) [.append .sum []] (Count 1 Anything) :=
  bare ⟨rfl, by decide⟩ (by decide) rfl fun _ stream _ =>
    Application.sum_sound (a := ⟨.sum, [], [], []⟩) rfl rfl (fun _ => trivial) stream

theorem orUnknown {kind : StepKind} (plain : kind.IsPlain) (apart : kind ≠ .select)
    (inner : kind.isEntry = false) (reduces : ∀ engine stream,
      Application.perform engine ⟨kind, [], [], []⟩ stream =
        Application.reduce ⟨kind, [], [], []⟩ stream) {inside : Ops}
    (gives : Passes (Count 1 R) inside (All Anything)) :
    Passes (Count 1 R) (reduction.orUnknown inside (.append kind [] inner)) (Count 1 Anything) := by
  have reduced : Passes (All Anything) [.append kind [] inner]
      fun out => All Anything out ∧ out.length ≤ 1 := by
    refine bare plain apart inner fun engine stream _ => ?_
    rw [reduces]
    exact Application.reduce_sound rfl (fun _ => trivial) stream
  exact .coalesce (gives.append reduced) (.constant _ fun _ _ => trivial)

theorem reduction (name : String) {inside : Ops}
    (gives : Passes (Count 1 R) inside (All Anything)) :
    Passes (Count 1 R) (Cypher.reduction name inside) (Count 1 Anything) := by
  unfold Cypher.reduction
  repeat' split
  · exact gives.append .count
  · exact gives.append (Passes.anyFold.before fun _ _ => trivial)
  · exact gives.append .sum
  all_goals exact .orUnknown ⟨rfl, by decide⟩ (by decide) rfl (fun _ _ => rfl) gives

theorem limitOne : Passes (fun stream => All R stream ∧ stream ≠ []) [.limit 1] (Count 1 R) := by
  refine flat ⟨rfl, by decide⟩ (by decide) rfl (.literal (.int 1)) rfl fun _ stream holds => ?_
  obtain ⟨all, some_⟩ := holds
  obtain ⟨t, rest, rfl⟩ := List.exists_cons_of_ne_nil some_
  exact .pure (.one (all t List.mem_cons_self))

end Passes

/-- What a column becomes for a group, if the columns without aggregates are keys. -/
theorem resultOps_passes (distinct : names.Nodup) {keys : List String} {item : ReturnItem}
    (member : item.column ∈ names) (keyed : item.expression.isAggregate = false → keys ≠ []) :
    Passes (Count 1 (Gathers (IsRows names keys))) (resultOps item) (Count 1 Anything) := by
  have first (keyed : keys ≠ []) :
      Passes (Count 1 (Gathers (IsRows names keys))) (resultOps.first item) (Count 1 Anything) :=
    ((Passes.unfoldRows.after fun _ rows => ⟨rows.all, rows.some_ keyed⟩).append .limitOne).append
      (.column distinct member)
  unfold resultOps
  split
  · exact (Passes.unfoldRows.after fun _ rows => rows.all).append .count
  · next name distinct_ _ same =>
      split
      · exact .reduction name (.values distinct member distinct_)
      · next plain =>
          refine first (keyed ?_)
          rw [same]
          exact eq_false_of_ne_true plain
  · next e unstarred uncalled =>
      refine first (keyed ?_)
      cases shape : item.expression with
      | countAll => exact absurd shape unstarred
      | call name distinct_ arguments => exact absurd shape (uncalled name distinct_ arguments)
      | _ => rfl

theorem Passes.keys (distinct : names.Nodup) {keys : List String} (some_ : keys ≠ [])
    (listed : ∀ key ∈ keys, key ∈ names) :
    Passes (Count 1 (IsRow names)) [.select keys] (Count 1 Anything) := by
  have filled : Op.select (α := Script) keys = .labelled .select keys := by
    simp [Op.select, some_]
  rw [filled]
  refine .one ⟨rfl, by decide⟩ (Builds.labelled .select ⟨rfl, by decide⟩ rfl keys)
    (.select (R := Anything) (fun stream count => ?_) fun stream out count reached => ?_)
  · exact Application.select_sound rfl rfl (fun t member key asked =>
      (count.all t member).column distinct (listed key asked) _) fun _ _ _ _ => trivial
  · rwa [count.length] at reached

theorem Passes.mapValues (P : Value → Prop) :
    Passes (Count 1 fun t => ∃ entries : List (Value × Value), t.object = .map entries ∧
        ∀ entry ∈ entries, P entry.2)
      [.selectColumn .values, .append .unfold []] (All fun t => P t.object) := by
  have resolved : resolve [Slot.column .values] = .ok [(Slot.column .values : Slot Live)] := rfl
  have builds := Builds.step .select ⟨rfl, by decide⟩ rfl _ resolved
  have selected : Passes (Count 1 fun t => ∃ entries : List (Value × Value),
        t.object = .map entries ∧ ∀ entry ∈ entries, P entry.2) [.selectColumn .values]
      (Count 1 fun t => ∃ values, t.object = .list values ∧ ∀ v ∈ values, P v) := by
    refine .one ⟨rfl, by decide⟩ builds (.select (fun stream count => ?_)
      fun stream out count reached => count.length ▸ reached)
    refine Application.selectValues_sound rfl fun t member => ?_
    obtain ⟨entries, place, known⟩ := count.all t member
    refine ⟨entries, place, _, rfl, fun v listed => ?_⟩
    obtain ⟨entry, given, rfl⟩ := List.mem_map.mp listed
    exact known entry given
  refine selected.append (.bare ⟨rfl, by decide⟩ (by decide) rfl fun _ stream count => ?_)
  refine (Application.unfold_sound (S := fun t => P t.object) fun t member part inside => ?_).imp
    fun _ parts => parts.1
  obtain ⟨values, place, known⟩ := count.all t member
  rw [place] at inside
  exact known part inside

/-- All rows together without keys, or those of each combination of keys. -/
theorem grouping_passes (distinct : names.Nodup) {keys : List String}
    (listed : ∀ key ∈ keys, key ∈ names) :
    Passes (All (IsRow names)) (grouping keys) (All (Gathers (IsRows names keys))) := by
  unfold grouping
  split
  · next none_ =>
      have empty := List.isEmpty_iff.mp none_
      exact (Passes.fold.after fun _ count => count.all).before fun stream all =>
        ⟨all, fun keyed => absurd empty keyed⟩
  · next some_ =>
      have keyed : keys ≠ [] := fun empty => some_ (empty ▸ rfl)
      let gathered (v : Value) := ∃ members, v = .list (objects members) ∧ IsRows names keys members
      have groups := Passes.group (S := fun t => ∃ entries : List (Value × Value),
          t.object = .map entries ∧ ∀ entry ∈ entries, gathered entry.2) (P := gathered)
        (.keys distinct keyed listed)
        (fun members group => ⟨members, rfl, group.all, fun _ => group.inhabited⟩)
        fun entries known => ⟨entries, rfl, known⟩
      exact groups.append (.mapValues gathered)

theorem aggregatedRows_parts {r : ReturnClause}
    (compiled : aggregatedRows b r names = .ok operations)
    (performed : performAll operations l = .ok l') :
    ∃ bys order, inputs b r.items = .ok bys ∧ sortRows names r.order = .ok order ∧ names ≠ [] ∧
      (∃ before after : Live, performAll bys before = .ok after) ∧
        operations = .project names :: bys ++
          grouping (r.keys.map ReturnItem.column) ++
          (.project names :: r.items.map fun item => .nested .by_ [.of (resultOps item)]) ++
          distinctOps r.distinct ++ order := by
  obtain ⟨bys, gathered, compiled⟩ := bind_eq_ok.mp compiled
  obtain ⟨order, sorted, same⟩ := bind_eq_ok.mp compiled
  cases same
  refine ⟨bys, order, gathered, sorted, named_of_project (by simp) performed, ?_, rfl⟩
  have inputs := List.suffix_cons (Op.project names) bys
  refine Performs.part (inputs.isInfix.trans (List.IsPrefix.isInfix ?_)) performed
  exact (((List.prefix_append _ _).trans (List.prefix_append _ _)).trans
    (List.prefix_append _ _)).trans (List.prefix_append _ _)

theorem aggregatedRows_passes {r : ReturnClause} (distinct : (r.items.map ReturnItem.column).Nodup)
    (compiled : aggregatedRows b r (r.items.map ReturnItem.column) = .ok operations)
    (performed : performAll operations l = .ok l') :
    Passes (Known b []) operations (All (IsRow (r.items.map ReturnItem.column))) := by
  obtain ⟨bys, order, gathered, sorted, named, ⟨before, after, served⟩, rfl⟩ :=
    aggregatedRows_parts compiled performed
  have rows := projection_passes named (inputs_serve gathered served)
    fun stream (all : Known b [] stream) => all
  have groups := grouping_passes distinct r.keys_listed
  have results : Passes
      (All (Gathers (IsRows (r.items.map ReturnItem.column) (r.keys.map ReturnItem.column))))
      (.project (r.items.map ReturnItem.column) ::
        r.items.map fun item => .nested .by_ [.of (resultOps item)])
      (All (IsRow (r.items.map ReturnItem.column))) := by
    refine projection_passes named (fun op member => ?_) fun _ all => all
    obtain ⟨item, listed, rfl⟩ := List.mem_map.mp member
    exact .by_ (resultOps_passes distinct (List.mem_map_of_mem listed) (r.keys_ne_nil listed))
  exact (((rows.append groups).append results).append (distinctOps_passes r.distinct)).append
    (sortRows_passes distinct sorted)

/-- Columns have names of their own. The rows are aggregated if one of the items is. -/
theorem returnOps_cases {r : ReturnClause} (compiled : returnOps b r = .ok operations) :
    (r.items.map ReturnItem.column).Nodup ∧ ∃ rows, operations = rows ++ windowOps r ∧
      (((∃ item ∈ r.items, item.expression.hasAggregate = true) ∧
          aggregatedRows b r (r.items.map ReturnItem.column) = .ok rows) ∨
        ((∀ item ∈ r.items, item.expression.hasAggregate = false) ∧
          plainRows b r (r.items.map ReturnItem.column) = .ok rows)) := by
  unfold returnOps at compiled
  dsimp only at compiled
  split at compiled
  · cases compiled
  · next once =>
      refine ⟨(nodup_of_repeatedName? once).1, ?_⟩
      split at compiled
      · next some_ =>
          obtain ⟨rows, aggregated, same⟩ := bind_eq_ok.mp compiled
          cases same
          exact ⟨rows, rfl, .inl ⟨List.any_eq_true.mp some_, aggregated⟩⟩
      · next free =>
          obtain ⟨rows, plain, same⟩ := bind_eq_ok.mp compiled
          cases same
          exact ⟨rows, rfl, .inr ⟨by simpa using free, plain⟩⟩

theorem windowOps_passes (r : ReturnClause) :
    Passes (All R) (windowOps r) (All R) := by
  refine .filters fun op member => ?_
  rcases List.mem_append.mp member with skips | limits
  · obtain ⟨n, _, rfl⟩ := Option.map_eq_some_iff.mp (Option.mem_toList.mp skips)
    exact .flat ⟨rfl, by decide⟩ (by decide) rfl (.literal (.int n)) rfl fun _ _ all =>
      Application.skip_sound (a := ⟨.skip, [.literal (.int n)], [], []⟩) rfl all
  · obtain ⟨n, _, rfl⟩ := Option.map_eq_some_iff.mp (Option.mem_toList.mp limits)
    exact .limit n

/-- Whatever reaches a RETURN clause becomes rows with its columns, or is left out. -/
theorem returnOps_passes {r : ReturnClause} (compiled : returnOps b r = .ok operations)
    (performed : performAll operations l = .ok l') :
    (r.items.map ReturnItem.column).Nodup ∧
      Passes (Known b []) operations (All (IsRow (r.items.map ReturnItem.column))) := by
  obtain ⟨distinct, rows, rfl, ⟨_, aggregated⟩ | ⟨_, plain⟩⟩ := returnOps_cases compiled
  all_goals
    obtain ⟨middle, performed, _⟩ := performed_append.mp performed
    refine ⟨distinct, .append ?_ (windowOps_passes r)⟩
  · exact aggregatedRows_passes distinct aggregated performed
  · exact plainRows_passes distinct plain performed

end Cypher

end PropertyGraph
