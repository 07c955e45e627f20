import PropertyGraph.Proofs.Cypher.Columns
import PropertyGraph.Proofs.Cypher.ReturnSoundness
import PropertyGraph.Proofs.Run.Groups

/-!
Operations whose outcome depends on nothing but the values that a stream stands at, and groups of
rows: rows with the same keys come into one list, in the order of the rows.
-/

namespace PropertyGraph

open Exec Plan Script

theorem Application.distinctBy_shows (world : World) (seen : List Value) (stream : Stream) :
    Shows world HasObjects (distinctBy (fun t => pure t.object) seen stream)
      (.ok ((objects stream).filter fun v => !seen.contains v).eraseDups) := by
  induction stream generalizing seen with
  | nil => exact .pure rfl
  | cons t rest ih =>
      have first : objects (t :: rest) = t.object :: objects rest := rfl
      rw [distinctBy, pure_bind, first]
      by_cases known : seen.contains t.object = true
      · rw [if_pos known, List.filter_cons_of_neg (by simpa using known)]
        exact ih seen
      · obtain ⟨more, gives, shown⟩ := ih (t.object :: seen)
        have others : ((objects rest).filter fun v => !seen.contains v).filter
            (fun v => !v == t.object) = (objects rest).filter fun v =>
              !(t.object :: seen).contains v := by
          rw [List.filter_filter]
          refine List.filter_congr fun v _ => ?_
          rw [List.contains_cons, Bool.not_or]
        rw [if_neg known, List.filter_cons_of_pos (by simpa using known), List.eraseDups_cons,
          others]
        exact .ok (gives.bind_ok (.pure _)) (congrArg (t.object :: ·) shown)

namespace Cypher

variable {Pre Mid : List Value → Prop} {operations more : Ops}
  {f g : List Value → Except ExecutionFault (List Value)}

/-- Streams at such values become streams at what these values are turned into. -/
def Turns (Pre : List Value → Prop) (operations : Ops)
    (f : List Value → Except ExecutionFault (List Value)) : Prop :=
  ∃ stages, Builds operations stages ∧ ∀ engine world stream, Pre (objects stream) →
    Shows world HasObjects (runStages engine stages stream) (f (objects stream))

namespace Turns

theorem nil : Turns Pre [] fun values => .ok values :=
  ⟨[], .nil, fun _ _ _ _ => .pure rfl⟩

theorem append (first : Turns Pre operations f) (next : Turns Mid more g)
    (meets : ∀ values turned, Pre values → f values = .ok turned → Mid turned) :
    Turns Pre (operations ++ more) fun values => f values >>= g := by
  obtain ⟨stages, builds, run⟩ := first
  obtain ⟨others, buildsNext, runNext⟩ := next
  refine ⟨stages ++ others, builds.append buildsNext, fun engine world stream holds => ?_⟩
  rw [runStages_append]
  refine (run engine world stream holds).bind fun middle turned made shown => ?_
  subst shown
  exact runNext engine world middle (meets _ _ holds made)

theorem congr (turns : Turns Pre operations f) (same : ∀ values, Pre values → f values = g values) :
    Turns Pre operations g := by
  obtain ⟨stages, builds, run⟩ := turns
  refine ⟨stages, builds, fun engine world stream holds => ?_⟩
  rw [← same _ holds]
  exact run engine world stream holds

theorem before {Pre' : List Value → Prop} (turns : Turns Pre operations f)
    (implies : ∀ values, Pre' values → Pre values) : Turns Pre' operations f := by
  obtain ⟨stages, builds, run⟩ := turns
  exact ⟨stages, builds, fun engine world stream holds =>
    run engine world stream (implies _ holds)⟩

theorem step {kind : StepKind} (plain : kind.IsPlain) (inner : kind.isEntry = false)
    {slots : List (Slot Script)} (arguments : List Argument)
    (resolved : ∃ found : List (Slot Live), resolve slots = .ok found ∧
      found.map Live.argument = arguments ∧ found.filterMap Live.child? = [])
    (shows_ : ∀ engine world stream, Pre (objects stream) → Shows world HasObjects
      (Application.perform engine ⟨kind, arguments, [], []⟩ stream) (f (objects stream))) :
    Turns Pre [.append kind slots inner] f := by
  obtain ⟨found, resolved, rfl, childless⟩ := resolved
  refine ⟨_, Builds.step kind plain inner slots resolved, fun engine world stream holds => ?_⟩
  rw [runStages_one, childless]
  exact shows_ engine world stream holds

theorem fold : Turns Pre [.append .fold []] fun values => .ok [.list values] :=
  step ⟨rfl, by decide⟩ rfl [] ⟨[], rfl, rfl, rfl⟩ fun _ _ _ _ => .pure rfl

theorem unfold : Turns Pre [.append .unfold []] fun values =>
    .ok (values.flatMap Application.parts) := by
  refine step ⟨rfl, by decide⟩ rfl [] ⟨[], rfl, rfl, rfl⟩ fun engine world stream _ => ?_
  have opened (stream : Stream) : Application.unfold stream =
      pure (stream.flatMap fun t => (Application.parts t.object).map t.split) := by
    induction stream with
    | nil => rfl
    | cons t rest ih =>
        change (do
          let out ← pure ((Application.parts t.object).map t.split)
          return out ++ (← Application.unfold rest)) = _
        rw [ih]
        simp
  change Shows world HasObjects (Application.unfold stream) _
  rw [opened]
  refine .pure ?_
  simp [HasObjects, objects, List.map_flatMap, List.flatMap_map, Function.comp_def,
    Traverser.split, Traverser.object]

theorem is_ (p : Predicate) : Turns Pre [.is_ p] fun values => .ok (values.filter p.test) := by
  refine step ⟨rfl, by decide⟩ rfl [.predicate p] ⟨[.predicate p], rfl, rfl, rfl⟩
    fun engine world stream _ => ?_
  have filtered := Application.matching_filter (a := ⟨.is_, [.predicate p], [], []⟩) rfl stream
  change Shows world HasObjects (Application.matching ⟨.is_, [.predicate p], [], []⟩ stream) _
  rw [filtered]
  exact .pure List.filter_map.symm

theorem count : Turns Pre [.append .count []] fun values => .ok [.ofNat values.length] := by
  refine step ⟨rfl, by decide⟩ rfl [] ⟨[], rfl, rfl, rfl⟩ fun engine world stream _ => .pure ?_
  rw [objects, List.length_map]
  rfl

theorem reduce {kind : StepKind} (plain : kind.IsPlain) (inner : kind.isEntry = false)
    (reduces : ∀ engine stream, Application.perform engine ⟨kind, [], [], []⟩ stream =
      Application.reduce ⟨kind, [], [], []⟩ stream) :
    Turns Pre [.append kind [] inner] fun values =>
      Option.toList <$> Reduce.reduce? kind values := by
  refine step plain inner [] ⟨[], rfl, rfl, rfl⟩ fun engine world stream _ => ?_
  rw [reduces, map_eq_pure_bind]
  have reduced : Gives world (liftFault id (Reduce.reduce? kind (objects stream)))
      (Reduce.reduce? kind (objects stream)) := by
    cases Reduce.reduce? kind (objects stream) <;> rfl
  refine reduced.shows_bind fun value _ => .pure ?_
  cases value <;> rfl

theorem dedup : Turns Pre [.labelled .dedup []] fun values => .ok values.eraseDups := by
  refine step ⟨rfl, by decide⟩ rfl [] ⟨[], rfl, rfl, rfl⟩ fun engine world stream _ => ?_
  have all := Application.distinctBy_shows world [] stream
  simp only [List.contains_nil, Bool.not_false, List.filter_true] at all
  exact all

theorem limitOne : Turns Pre [.limit 1] fun values => .ok (values.take 1) := by
  refine step ⟨rfl, by decide⟩ rfl [.literal (.int 1)] ⟨[.literal (.int 1)], rfl, rfl, rfl⟩
    fun engine world stream _ => .pure ?_
  have one : Application.bound 1 = 1 := rfl
  have none_ : Application.bound 0 = 0 := rfl
  simp [HasObjects, objects, Application.window, Application.slice, Application.scope,
    Arguments.scope, one, none_]

end Turns

variable {α : Type} {see : Stream → α → Prop} {R : Value → Prop}

/-- A traverser at such a value is led to what is seen, wherever it comes from. -/
def Brings (see : Stream → α → Prop) (R : Value → Prop) (operations : Ops)
    (g : Value → Except ExecutionFault α) : Prop :=
  ∃ stages, Builds operations stages ∧ ∀ engine world t, R t.object →
    Shows world see (runStages engine stages [t]) (g t.object)

theorem Turns.brings (turns : Turns Pre operations f) (single : ∀ v, R v → Pre [v]) :
    Brings HasObjects R operations fun v => f [v] := by
  obtain ⟨stages, builds, run⟩ := turns
  exact ⟨stages, builds, fun engine world t holds => run engine world [t] (single _ holds)⟩

namespace Brings

variable {h : Value → Except ExecutionFault (List Value)}

theorem congr {g g' : Value → Except ExecutionFault α} (brings : Brings see R operations g)
    (same : ∀ v, R v → g v = g' v) : Brings see R operations g' := by
  obtain ⟨stages, builds, run⟩ := brings
  refine ⟨stages, builds, fun engine world t holds => ?_⟩
  rw [← same _ holds]
  exact run engine world t holds

theorem follow (brings : Brings HasObjects R operations h) (next : Turns Mid more f)
    (meets : ∀ v values, R v → h v = .ok values → Mid values) :
    Brings HasObjects R (operations ++ more) fun v => h v >>= f := by
  obtain ⟨stages, builds, run⟩ := brings
  obtain ⟨others, buildsNext, runNext⟩ := next
  refine ⟨stages ++ others, builds.append buildsNext, fun engine world t holds => ?_⟩
  rw [runStages_append]
  refine (run engine world t holds).bind fun middle values made shown => ?_
  subst shown
  exact runNext engine world middle (meets _ _ holds made)

theorem one (brings : Brings HasObjects R operations h) {g : Value → Except ExecutionFault Value}
    (same : ∀ v, R v → h v = (fun w => [w]) <$> g v) : Brings IsOne R operations g := by
  obtain ⟨stages, builds, run⟩ := brings
  refine ⟨stages, builds, fun engine world t holds => Shows.one ?_⟩
  rw [← same _ holds]
  exact run engine world t holds

theorem orUnknown {found : Value → Except ExecutionFault (Option Value)}
    (brings : Brings HasObjects R operations fun v => Option.toList <$> found v) :
    Brings IsOne R [.nested .coalesce [.of operations, .of [.constant Value.unknown]]] fun v =>
      (fun found => found.getD Value.unknown) <$> found v := by
  obtain ⟨stages, builds, run⟩ := brings
  obtain ⟨other, makesOther, runOther⟩ := (Moves.constant Value.unknown).child
  obtain ⟨programs, built⟩ := Builds.nested .coalesce ⟨rfl, by decide⟩ rfl
    (.cons (.of builds) (.cons makesOther .nil))
  refine ⟨_, built, fun engine world t holds => ?_⟩
  rw [runStages_one]
  refine Application.coalesce_shows (t := t) (a := ⟨.coalesce, programs.map .program,
    runChildren engine [.mk stages [], other], []⟩) rfl ?_ (runOther engine world t)
  have shown : Shows world HasObjects (runStages engine stages [t])
    (Option.toList <$> found t.object) := run engine world t holds
  cases result : found t.object with
  | error fault =>
      rw [result] at shown
      exact shown
  | ok value =>
      rw [result] at shown
      exact shown

end Brings

/-- Each value becomes a map of what all operations bring it to. -/
theorem Turns.project {ι : Type} {names : List String} (named : names ≠ []) {items : List ι}
    (lengths : names.length = items.length) {inside : ι → Ops}
    {value : ι → Value → Except ExecutionFault Value}
    (brings : ∀ item ∈ items, Brings IsOne R (inside item) (value item)) :
    Turns (fun values => ∀ v ∈ values, R v)
      (.project names :: items.map fun item => .nested .by_ [.of (inside item)])
      fun values => values.mapM fun v => (fun cells => .record (names.zip cells)) <$>
        (items.map fun item => value item v).mapM fun result => result := by
  have children : ∃ plans, List.Forall₂ Makes (items.map fun item => .of (inside item)) plans ∧
      ∀ engine world t, R t.object → Application.Lead world t (runChildren engine plans)
        (items.map fun item => value item t.object) := by
    clear lengths
    induction items with
    | nil => exact ⟨[], .nil, fun _ _ _ _ => .nil⟩
    | cons item rest ih =>
        obtain ⟨stages, builds, run⟩ := brings item List.mem_cons_self
        obtain ⟨plans, make, lead⟩ :=
          ih fun other later => brings other (List.mem_cons_of_mem _ later)
        exact ⟨.mk stages [] :: plans, .cons (.of builds) make, fun engine world t holds =>
          .cons (run engine world t holds) (lead engine world t holds)⟩
  obtain ⟨plans, make, lead⟩ := children
  obtain ⟨stage, builds, projects⟩ :=
    projection named make (lengths.trans (List.length_map _).symm)
  rw [List.map_map] at builds
  refine ⟨[stage], builds, fun engine world stream all => ?_⟩
  obtain ⟨record, runs, gives⟩ := projects engine
  rw [runStages_one, runs]
  exact mapEach_shows fun t member =>
    gives world t _ (lead engine world t (all _ (List.mem_map_of_mem member)))

end Cypher

namespace Exec

/-- Each traverser moves on to one value, which depends on its object alone. -/
theorem forEach_shows {world : World} {f : Traverser → Exec Stream} {g : Value → Value}
    {stream : Stream}
    (each : ∀ t ∈ stream, Gives world (f t) (.ok [t.split (g t.object)])) :
    Shows world HasObjects (forEach f stream) (.ok ((objects stream).map g)) := by
  induction stream with
  | nil => exact .pure rfl
  | cons t rest ih =>
      obtain ⟨more, gives, shown⟩ := ih fun u later => each u (List.mem_cons_of_mem _ later)
      refine .ok ((each t List.mem_cons_self).bind_ok (gives.bind_ok (.pure _))) ?_
      exact congrArg (g t.object :: ·) shown

end Exec

namespace Cypher

variable {names keys : List String} {world : World}

def AreRows (names : List String) (values : List Value) : Prop :=
  ∀ v ∈ values, ∃ entries : List (String × Value), v = .record entries ∧ entries.map (·.1) = names

theorem AreRows.isRow {stream : Stream} (rows : AreRows names (objects stream)) :
    All (IsRow names) stream := fun _ member => rows _ (List.mem_map_of_mem member)

/-- What rows are grouped by: their value in the only key, or a map of their values in all keys. -/
def keyFrom (keys : List String) (tuple : List Value) : Value :=
  match tuple with
  | [value] => value
  | tuple => .record (keys.zip tuple)

theorem keyFrom_inj (distinct : keys.Nodup) {first second : List Value}
    (lengths : first.length = keys.length) (lengths' : second.length = keys.length)
    (same : keyFrom keys first = keyFrom keys second) : first = second := by
  have keyed {tuple : List Value} (lengths : tuple.length = keys.length) :
      (keys.zip tuple).map (·.1) = keys := List.map_fst_zip (Nat.le_of_eq lengths.symm)
  have zipped (same : Value.record (keys.zip first) = .record (keys.zip second)) :
      first = second := by
    have entries := record_inj ((keyed lengths).symm ▸ distinct)
      ((keyed lengths').symm ▸ distinct) same
    have values := congrArg (List.map Prod.snd) entries
    rwa [List.map_snd_zip (Nat.le_of_eq lengths), List.map_snd_zip (Nat.le_of_eq lengths')]
      at values
  match first, second, lengths.trans lengths'.symm with
  | [v], [w], _ =>
      have same : v = w := same
      rw [same]
  | [], [], _ => rfl
  | v :: next :: rest, w :: other :: more, _ => exact zipped same

def keyOf (keys : List String) (row : Value) : Value := keyFrom keys (keys.map (cellOf row))

/-- The values of each key, as a list, in order of the first of them. -/
def groupsBy (key : Value → Value) (values : List Value) : List (Value × Value) :=
  (values.map key).eraseDups.map fun k => (k, .list (values.filter fun v => key v = k))

/-- The values of a map, as a list. -/
def valuesOf : Value → Value
  | .map entries => .list (entries.map (·.2))
  | v => v

end Cypher

namespace Application

variable {world : World} {stream : Stream} {key : Value → Value} {c d : Child}

theorem keyed_gives (fault : ExecutionFault)
    (keys : ∀ t ∈ stream, Shows world IsOne (c.run [t]) (.ok (key t.object))) :
    Gives world (keyed fault (some c) stream)
      (.ok (stream.map fun t => (key t.object, t))) := by
  induction stream with
  | nil => exact Gives.pure _
  | cons t rest ih =>
      refine (Child.valueOr_gives fault (keys t List.mem_cons_self)).bind_ok ?_
      exact (ih fun u later => keys u (List.mem_cons_of_mem _ later)).bind_ok (Gives.pure _)

theorem groupValues_gives (folds : ∀ members : Stream,
      Shows world IsOne (d.run members) (.ok (.list (objects members))))
    (reducing : d.reducing = true) (groups : Dictionary Value Stream) :
    Gives world (groupValues (some d) groups)
      (.ok (groups.map fun group => (group.1, .list (objects group.2)))) := by
  induction groups with
  | nil => exact Gives.pure _
  | cons group rest ih =>
      obtain ⟨k, members⟩ := group
      obtain ⟨_, gives, u, rfl, place⟩ := folds members
      have one : Gives world (groupValue (some d) members) (.ok (.list (objects members))) := by
        refine gives.bind_ok ?_
        rw [reducing, ← place]
        exact Gives.pure _
      exact one.bind_ok (ih.bind_ok (Gives.pure _))

/-- The objects of each key come into one list. -/
theorem group_shows {a : Application} (bys : a.bys = [some c, some d])
    (keys : ∀ t ∈ stream, Shows world IsOne (c.run [t]) (.ok (key t.object)))
    (folds : ∀ members : Stream,
      Shows world IsOne (d.run members) (.ok (.list (objects members))))
    (reducing : d.reducing = true) :
    Shows world HasObjects (a.group stream)
      (.ok [.map (Cypher.groupsBy key (objects stream))]) := by
  simp only [group, bys, List.getElem?_cons_zero, List.getElem?_cons_succ, Option.join_some]
  refine .ok ((keyed_gives _ keys).bind_ok
    ((groupValues_gives folds reducing _).bind_ok (.pure _))) ?_
  have members (k : Value) : objects (membersOf (stream.map fun t => (key t.object, t)) k) =
      (objects stream).filter fun v => key v = k := by
    simp [membersOf, objects, List.filter_map, Function.comp_def]
  have keys : (stream.map fun t => (key t.object, t)).map (·.1) = (objects stream).map key := by
    simp [objects]
  refine congrArg (fun entries => [Value.map entries]) ?_
  rw [groups_eq, keys, Dictionary.tabulate, List.map_map]
  exact List.map_congr_left fun k _ => congrArg (fun found => (k, Value.list found)) (members k)

end Application

namespace Cypher

variable {names keys : List String} {world : World}

theorem selectKeys_gives {t : Traverser} (row : IsRow names t) (distinct : names.Nodup)
    (listed : ∀ key ∈ keys, key ∈ names) (index : Nat) :
    Gives world (Application.selectKeys [] .last t index keys)
      (.ok (some (keys.map fun key => (key, cellOf t.object key)))) := by
  induction keys generalizing index with
  | nil => exact Gives.pure _
  | cons key rest ih =>
      rw [Application.selectKeys]
      refine (Gives.named? t .last key).bind_ok ?_
      rw [row.cell distinct (listed key List.mem_cons_self) world]
      have others := ih (fun other later => listed other (List.mem_cons_of_mem _ later)) (index + 1)
      exact (Gives.pure _).bind_ok (others.bind_ok (Gives.pure _))

namespace Turns

theorem select (distinct : names.Nodup) (some_ : keys ≠ []) (listed : ∀ key ∈ keys, key ∈ names) :
    Turns (AreRows names) [.select keys] fun values => .ok (values.map (keyOf keys)) := by
  have filled : Op.select (α := Script) keys = .labelled .select keys := by
    simp [Op.select, some_]
  rw [filled]
  refine ⟨_, Builds.labelled .select ⟨rfl, by decide⟩ rfl keys, fun engine world stream rows => ?_⟩
  let a : Application := ⟨.select, keys.map .label, [], []⟩
  have labels : a.labels = keys := by
    simp [a, Application.labels, Arguments.labels, List.filterMap_map]
  have selects : a.select stream = forEach (a.selectOne .last keys) stream := by
    have plain : a.select stream = forEach (a.selectOne .last a.labels) stream := by
      simp only [a]
      cases keys <;> rfl
    rw [plain, labels]
  rw [runStages_one]
  change Shows world HasObjects (a.select stream) _
  rw [selects]
  refine forEach_shows fun t member => ?_
  refine (selectKeys_gives (rows.isRow t member) distinct listed 0).bind_ok ?_
  rcases keys with _ | ⟨key, _ | ⟨next, rest⟩⟩
  · exact absurd rfl some_
  · exact Gives.pure _
  · rw [List.map_prod_left_eq_zip]
    exact Gives.pure _

theorem mapValues : Turns (fun values => ∃ entries, values = [.map entries])
    [.selectColumn .values] fun values => .ok (values.map valuesOf) := by
  have resolved : resolve [Slot.column .values] = .ok [(Slot.column .values : Slot Live)] := rfl
  refine ⟨_, Builds.step .select ⟨rfl, by decide⟩ rfl _ resolved, fun engine world stream one => ?_⟩
  obtain ⟨entries, single⟩ := one
  obtain ⟨t, rfl, place⟩ := List.map_eq_singleton_iff.mp single
  rw [single, runStages_one]
  refine .ok (a := [t.split (.list (entries.map Prod.snd))]) ?_ rfl
  change Gives world (mapEach _ [t]) _
  rw [mapEach, forEach_one, place]
  exact (Gives.pure _).bind_ok (Gives.pure _)

theorem group {R : Value → Prop} {inside : Ops} {key : Value → Value}
    (keyed : Brings IsOne R inside fun v => .ok (key v)) :
    Turns (fun values => ∀ v ∈ values, R v) [.append .group [], .nested .by_ [.of inside],
        .nested .by_ [.of [.append .fold []]]] fun values =>
      .ok [.map (groupsBy key values)] := by
  obtain ⟨stages, builds, run⟩ := keyed
  have folds := Builds.step .fold ⟨rfl, by decide⟩ rfl [] rfl
  obtain ⟨arguments, modulates⟩ := Modulates.nested .group .by_ rfl rfl rfl builds [] rfl rfl
  obtain ⟨_, modulatesFold⟩ := Modulates.nested .group .by_ rfl rfl rfl folds [] rfl rfl
  refine ⟨_, (Builds.step .group ⟨rfl, by decide⟩ rfl [] rfl).modulated
    (.cons modulates (.cons modulatesFold .nil)), fun engine world stream all => ?_⟩
  rw [runStages_one]
  exact Application.group_shows rfl
    (fun t member => run engine world t (all _ (List.mem_map_of_mem member)))
    (fun members => .pure ⟨_, rfl, rfl⟩) rfl

end Turns

/-- All rows in one group, or those of each combination of keys. -/
def groupsOf (keys : List String) (rows : List Value) : List (List Value) :=
  if keys.isEmpty then [rows]
  else (rows.map (keyOf keys)).eraseDups.map fun k => rows.filter fun row => keyOf keys row = k

theorem groupsOf_sublist {rows members : List Value} (group : members ∈ groupsOf keys rows) :
    members.Sublist rows := by
  unfold groupsOf at group
  split at group
  · exact List.mem_singleton.mp group ▸ .refl _
  · obtain ⟨k, _, rfl⟩ := List.mem_map.mp group
    exact List.filter_sublist

theorem groupsOf_ne_nil {rows members : List Value} (keyed : keys ≠ [])
    (group : members ∈ groupsOf keys rows) : members ≠ [] := by
  have some_ : ¬ keys.isEmpty := fun none_ => keyed (List.isEmpty_iff.mp none_)
  rw [groupsOf, if_neg some_] at group
  obtain ⟨k, listed, rfl⟩ := List.mem_map.mp group
  obtain ⟨row, member, same⟩ := List.mem_map.mp (List.mem_eraseDups.mp listed)
  exact List.ne_nil_of_mem (List.mem_filter.mpr ⟨member, decide_eq_true same⟩)

/-- Rows are turned into a list for each group. -/
theorem grouping_turns (distinct : names.Nodup) (listed : ∀ key ∈ keys, key ∈ names) :
    Turns (AreRows names) (grouping keys) fun rows => .ok ((groupsOf keys rows).map .list) := by
  unfold grouping groupsOf
  split
  · exact .fold
  · next some_ =>
      have keyed : keys ≠ [] := fun empty => some_ (empty ▸ rfl)
      have selects : Brings IsOne (fun v => AreRows names [v]) [.select keys] fun v =>
          .ok (keyOf keys v) :=
        ((Turns.select distinct keyed listed).brings fun _ row => row).one fun _ _ => rfl
      -- The map of groups gives way to the list of its values, and that list to its items.
      have opens : Turns (fun _ => True) [.append .unfold []] _ := .unfold
      have opened := ((Turns.group selects).append .mapValues ?_).append opens
        fun _ _ _ _ => trivial
      · refine (opened.before fun rows are row member => ?_).congr fun rows _ => ?_
        · exact List.forall_mem_singleton.mpr (are row member)
        · change Except.ok _ = Except.ok _
          simp [valuesOf, groupsBy, Application.parts]
      · rintro rows _ _ made
        cases made
        exact ⟨_, rfl⟩

end Cypher

end PropertyGraph
