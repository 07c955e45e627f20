import PropertyGraph.Proofs.Run.Groups
import PropertyGraph.Proofs.Run.Soundness

/-!
What steps do to sorts of traversers by their sub-traversals, if these come to the same in strict
runs and in plain ones.
-/

namespace PropertyGraph

open Exec

/-- Two sub-traversals come to the same wherever they are used as stated. -/
structure Child.Sound (Pre Post : Stream → Prop) (strict plain : Child) : Prop where
  reducing : strict.reducing = plain.reducing
  runs : ∀ stream, Pre stream → Exec.Sound Post (strict.run stream) (plain.run stream)

variable {R S : Traverser → Prop} {Post : Stream → Prop} {t : Traverser} {stream : Stream}

namespace Child.Sound

variable {c d : Child}

theorem hasResult (sound : Child.Sound (Count 1 R) Post c d) (holds : R t) :
    Exec.Sound (fun _ => True) (c.hasResult t) (d.hasResult t) :=
  (sound.runs [t] (.one holds)).bind fun _ _ => .pure trivial

theorem first (sound : Child.Sound (Count 1 R) (Count 1 S) c d) (holds : R t) :
    Exec.Sound (fun found => ∃ u : Traverser, found = some u.object ∧ S u)
      (c.first? t) (d.first? t) := by
  refine (sound.runs [t] (.one holds)).bind fun out count => ?_
  obtain ⟨u, rfl, reached⟩ := count.single
  exact .pure ⟨u, rfl, reached⟩

theorem valueOr {x y : Option Child}
    (sound : Option.Rel (Child.Sound (Count 1 R) (Count 1 S)) x y) (fault : ExecutionFault)
    (holds : R t) :
    Exec.Sound (fun _ => True) (Child.valueOr x fault t) (Child.valueOr y fault t) := by
  cases sound with
  | none => exact .pure trivial
  | some sound =>
      refine (sound.first holds).bind ?_
      rintro _ ⟨u, rfl, _⟩
      exact .pure trivial

end Child.Sound

/-- Sub-traversals that lead one traverser to one value. -/
abbrev Child.Serves (R : Traverser → Prop) (strict plain : Option Child) : Prop :=
  Option.Rel (Child.Sound (Count 1 R) (Count 1 fun _ => True)) strict plain

namespace Application

variable {a b : Application} {c d : Child}

theorem runAll_sound {cs ds : List Child}
    (children : List.Forall₂ (Child.Sound (Count 1 R) (Count 1 S)) cs ds) (holds : R t) :
    Exec.Sound (Count cs.length S) (runAll t cs) (runAll t ds) := by
  induction children with
  | nil => exact .pure ⟨rfl, nofun⟩
  | cons first _ ih =>
      refine (first.runs [t] (.one holds)).bind fun out here => ih.bind fun more there => ?_
      have both := here.append there
      rw [Nat.add_comm] at both
      exact .pure both

theorem union_sound
    (children : List.Forall₂ (Child.Sound (Count 1 R) (Count 1 S)) a.children b.children)
    (holds : R t) :
    Exec.Sound (Count a.children.length S) (a.union [t]) (b.union [t]) := by
  rw [union, union, Exec.forEach_one, Exec.forEach_one]
  exact runAll_sound children holds

theorem coalesce_sound {first second other next : Child}
    (children : a.children = [first, second]) (children' : b.children = [other, next])
    (sound : Child.Sound (Count 1 R) (fun out => All S out ∧ out.length ≤ 1) first other)
    (otherwise : Child.Sound (Count 1 R) (Count 1 S) second next) (holds : R t) :
    Exec.Sound (Count 1 S) (a.coalesce [t]) (b.coalesce [t]) := by
  rw [coalesce, coalesce, Exec.forEach_one, Exec.forEach_one, children, children']
  refine (sound.runs [t] (.one holds)).bind ?_
  rintro out ⟨all, few⟩
  cases out with
  | nil =>
      refine (otherwise.runs [t] (.one holds)).bind fun out count => ?_
      obtain ⟨u, rfl, reached⟩ := count.single
      exact .pure (.one reached)
  | cons u rest =>
      have only : rest = [] :=
        List.length_eq_zero_iff.mp (Nat.le_zero.mp (Nat.le_of_succ_le_succ few))
      subst only
      exact .pure (.one (all u List.mem_cons_self))

theorem choose_sound {condition yes no condition' yes' no' : Child}
    (children : a.children = [condition, yes, no])
    (children' : b.children = [condition', yes', no']) (unpredicated : a.predicate? 0 = none)
    (unpredicated' : b.predicate? 0 = none)
    (asks : Child.Sound (Count 1 R) (fun _ => True) condition condition')
    (first : Child.Sound (Count 1 R) (Count 1 S) yes yes')
    (second : Child.Sound (Count 1 R) (Count 1 S) no no') (holds : R t) :
    Exec.Sound (Count 1 S) (a.choose [t]) (b.choose [t]) := by
  rw [choose, choose, Exec.forEach_one, Exec.forEach_one, chooseOne_eq children unpredicated,
    chooseOne_eq children' unpredicated']
  refine (asks.hasResult holds).bind fun passed _ => ?_
  cases passed with
  | true => exact first.runs [t] (.one holds)
  | false => exact second.runs [t] (.one holds)

theorem anyChild_sound (wanted : Bool) {cs ds : List Child}
    (children : List.Forall₂ (Child.Sound (Count 1 R) (fun _ => True)) cs ds) (holds : R t) :
    Exec.Sound (fun _ => True) (anyChild wanted t cs) (anyChild wanted t ds) := by
  induction children with
  | nil => exact .pure trivial
  | cons first _ ih =>
      refine (first.hasResult holds).bind fun passed _ => ?_
      split
      · exact .pure trivial
      · exact ih

theorem and_sound (children : List.Forall₂ (Child.Sound (Count 1 R) (fun _ => True))
    a.children b.children) (all : All R stream) :
    Exec.Sound (All R) (a.and stream) (b.and stream) :=
  .keep all fun t member => (anyChild_sound false children (all t member)).bind fun _ _ =>
    .pure trivial

theorem or_sound (children : List.Forall₂ (Child.Sound (Count 1 R) (fun _ => True))
    a.children b.children) (all : All R stream) :
    Exec.Sound (All R) (a.or stream) (b.or stream) :=
  .keep all fun t member => anyChild_sound true children (all t member)

theorem where_sound (children : a.children = [c]) (children' : b.children = [d])
    (unpredicated : a.predicate? 0 = none) (unpredicated' : b.predicate? 0 = none)
    (asks : Child.Sound (Count 1 R) (fun _ => True) c d) (all : All R stream) :
    Exec.Sound (All R) (a.where_ stream) (b.where_ stream) := by
  have one {a : Application} {c : Child} (children : a.children = [c])
      (unpredicated : a.predicate? 0 = none) : a.where_ stream = Exec.keep c.hasResult stream := by
    simp [where_, unpredicated, children, Application.child]
  rw [one children unpredicated, one children' unpredicated']
  exact .keep all fun t member => asks.hasResult (all t member)

theorem sideEffect_sound (children : a.children = [c]) (children' : b.children = [d])
    (acts : Child.Sound (Count 1 R) (fun _ => True) c d) (all : All R stream) :
    Exec.Sound (All R) (a.sideEffect stream) (b.sideEffect stream) := by
  have one {a : Application} {c : Child} (children : a.children = [c]) :
      a.sideEffect stream = Exec.forEach (fun t => do
        let _ ← c.run [t]
        return [t]) stream := by
    simp [sideEffect, children, Application.child]
  rw [one children, one children']
  refine .forEach fun t member => (acts.runs [t] (.one (all t member))).bind fun _ _ => ?_
  exact .pure (Count.one (all t member)).all

theorem byAt_sound {xs ys : List (Option Child)} (bys : List.Forall₂ (Child.Serves R) xs ys)
    (index : Nat) : Child.Serves R (byAt xs index) (byAt ys index) := by
  have at_ (place : Nat) : Child.Serves R (xs[place]?).join (ys[place]?).join := by
    induction bys generalizing place with
    | nil => exact .none
    | cons first _ ih =>
        cases place with
        | zero => exact first
        | succ place => exact ih place
  rw [byAt, byAt, bys.length_eq]
  exact at_ _

theorem projectColumns_sound {xs ys : List (Option Child)}
    (bys : List.Forall₂ (Child.Serves R) xs ys) (holds : R t) (index : Nat)
    (keys : List String) :
    Exec.Sound (fun entries : List (String × Value) => entries.map (·.1) = keys)
      (projectColumns xs t index keys) (projectColumns ys t index keys) := by
  induction keys generalizing index with
  | nil => exact .pure rfl
  | cons key rest ih =>
      refine (Child.Sound.valueOr (byAt_sound bys index) _ holds).bind fun v _ => ?_
      exact (ih (index + 1)).bind fun entries named => .pure (congrArg (key :: ·) named)

theorem project_sound (labels : a.labels = b.labels)
    (bys : List.Forall₂ (Child.Serves R) a.bys b.bys) (all : All R stream)
    (moves : ∀ t ∈ stream, ∀ entries : List (String × Value), entries.map (·.1) = a.labels →
      S (t.split (.record entries))) :
    Exec.Sound (Count stream.length S) (a.project stream) (b.project stream) := by
  unfold project
  rw [← labels]
  exact .mapEach fun t member => (projectColumns_sound bys (all t member) 0 a.labels).bind
    fun entries named => .pure (moves t member entries named)

/-- Criteria that sort alike, by sub-traversals that come to the same. -/
structure Criterion.Sound (R : Traverser → Prop) (strict plain : Criterion) : Prop where
  child : Child.Serves R strict.child plain.child
  order : strict.order = plain.order

theorem orders_eq {cs ds : List Criterion} (criteria : List.Forall₂ (Criterion.Sound R) cs ds) :
    cs.map (·.order) = ds.map (·.order) := by
  induction criteria with
  | nil => rfl
  | cons first _ ih => rw [List.map_cons, List.map_cons, first.order, ih]

theorem compareKeys_congr {cs ds : List Criterion} (orders : cs.map (·.order) = ds.map (·.order)) :
    compareKeys cs = compareKeys ds := by
  funext xs ys
  induction cs generalizing ds xs ys with
  | nil =>
      cases List.map_eq_nil_iff.mp orders.symm
      rfl
  | cons c cs ih =>
      obtain ⟨d, ds, rfl⟩ := List.exists_cons_of_ne_nil (l := ds) (by rintro rfl; cases orders)
      obtain ⟨first, others⟩ : c.order = d.order ∧ _ := List.cons_eq_cons.mp orders
      cases xs with
      | nil => rfl
      | cons x xs =>
          cases ys with
          | nil => rfl
          | cons y ys => rw [compareKeys, compareKeys, first, ih others]

theorem sortKeys_sound {cs ds : List Criterion}
    (criteria : List.Forall₂ (Criterion.Sound R) cs ds) (holds : R t) :
    Exec.Sound (fun _ => True) (sortKeys t cs) (sortKeys t ds) := by
  induction criteria with
  | nil => exact .pure trivial
  | cons first _ ih =>
      refine (Child.Sound.valueOr first.child _ holds).bind fun key _ => ?_
      exact ih.bind fun keys _ => .pure trivial

theorem withSortKeys_sound {cs ds : List Criterion}
    (criteria : List.Forall₂ (Criterion.Sound R) cs ds) (all : All R stream) :
    Exec.Sound (fun keyed => keyed.map (·.2) = stream) (withSortKeys cs stream)
      (withSortKeys ds stream) := by
  induction stream with
  | nil => exact .pure rfl
  | cons t rest ih =>
      refine (sortKeys_sound criteria (all t List.mem_cons_self)).bind fun keys _ => ?_
      refine (ih fun u later => all u (List.mem_cons_of_mem _ later)).bind fun more same => ?_
      exact .pure (congrArg (t :: ·) same)

theorem isDisorder {s : Sorter} {criteria : List Criterion}
    {keyed : List (List Value × Traverser)}
    (fails : s.sort (fun x y => compareKeys criteria x.1 y.1) keyed = none) :
    ExecutionFault.IsDisorder (.disordered (criteria.map (·.order)) (keyed.map (·.1))) := by
  refine ⟨_, _, rfl, fun total => ?_⟩
  have keys : compareKeys ((criteria.map (·.order)).map (⟨none, ·⟩)) = compareKeys criteria :=
    compareKeys_congr (by simp)
  have compared : compareAt (compareKeys criteria) (keyed.map (·.1)) =
      compareAt (fun x y => compareKeys criteria x.1 y.1) keyed := by
    funext i j
    simp only [compareAt, List.getElem?_map]
    cases keyed[i]? <;> cases keyed[j]? <;> rfl
  rw [keys, compared, List.length_map] at total
  obtain ⟨order, found, _⟩ := s.stable total
  rw [Sorter.sort, found] at fails
  cases fails

theorem order_sound (engine : Engine)
    (criteria : List.Forall₂ (Criterion.Sound R) a.criteria b.criteria) (all : All R stream) :
    Exec.Sound (fun out => out.Perm stream) (a.order engine stream) (b.order engine stream) := by
  have orders := orders_eq criteria
  have shuffles : a.criteria.any (·.order == .shuffle) = b.criteria.any (·.order == .shuffle) := by
    have same := congrArg (List.any · (· == .shuffle)) orders
    simpa only [List.any_map, Function.comp_def] using same
  unfold order
  rw [compareKeys_congr orders, shuffles, orders]
  refine (withSortKeys_sound criteria all).bind ?_
  rintro keyed rfl
  split
  · exact .pure (engine.shuffle.apply_perm _)
  · split
    · rename_i sorted sorts
      exact .pure ((Sorter.sort_perm sorts).map _)
    · rename_i fails
      exact .disorder (isDisorder fails)

theorem keyed_sound {x y : Option Child} (serves : Child.Serves R x y) (fault : ExecutionFault)
    (all : All R stream) :
    Exec.Sound (fun entries : List (Value × Traverser) => entries.map (·.2) = stream)
      (keyed fault x stream) (keyed fault y stream) := by
  induction stream with
  | nil => exact .pure rfl
  | cons t rest ih =>
      refine (Child.Sound.valueOr serves _ (all t List.mem_cons_self)).bind fun key _ => ?_
      refine (ih fun u later => all u (List.mem_cons_of_mem _ later)).bind fun more same => ?_
      exact .pure (congrArg (t :: ·) same)

/-- Members of one sort, at least one. -/
structure IsGroup (R : Traverser → Prop) (members : Stream) : Prop where
  inhabited : members ≠ []
  all : All R members

theorem groups_sound {entries : List (Value × Traverser)} (same : entries.map (·.2) = stream)
    (all : All R stream) : ∀ group ∈ entries.foldl intoGroup [], IsGroup R group.2 := by
  intro group member
  rw [groups_eq] at member
  obtain ⟨key, listed, rfl⟩ := List.mem_map.mp member
  obtain ⟨entry, given, rfl⟩ := List.mem_map.mp (List.mem_eraseDups.mp listed)
  refine ⟨fun empty => ?_, fun t found => all t ?_⟩
  · rw [membersOf, List.map_eq_nil_iff, List.filter_eq_nil_iff] at empty
    exact empty entry given (decide_eq_true rfl)
  · obtain ⟨other, kept, rfl⟩ := List.mem_map.mp found
    rw [← same]
    exact List.mem_map_of_mem (List.mem_of_mem_filter kept)

theorem groupValues_sound {P : Value → Prop} {groups : Dictionary Value Stream}
    (folds : Child.Sound (IsGroup R) (Count 1 fun u => P u.object) c d)
    (reducing : d.reducing = true) (known : ∀ group ∈ groups, IsGroup R group.2) :
    Exec.Sound (fun entries => ∀ entry ∈ entries, P entry.2) (groupValues (some c) groups)
      (groupValues (some d) groups) := by
  induction groups with
  | nil => exact .pure nofun
  | cons group rest ih =>
      obtain ⟨key, members⟩ := group
      have one : Exec.Sound P (groupValue (some c) members) (groupValue (some d) members) := by
        refine (folds.runs members (known _ List.mem_cons_self)).bind fun out count => ?_
        obtain ⟨u, rfl, holds⟩ := count.single
        rw [folds.reducing, reducing]
        exact .pure holds
      refine one.bind fun v holds => ?_
      refine (ih fun other later => known other (List.mem_cons_of_mem _ later)).bind
        fun entries others => .pure ?_
      exact List.forall_mem_cons.mpr ⟨holds, others⟩

theorem group_sound {P : Value → Prop} {x y : Option Child} (bys : a.bys = [x, some c])
    (bys' : b.bys = [y, some d]) (keys : Child.Serves R x y)
    (folds : Child.Sound (IsGroup R) (Count 1 fun u => P u.object) c d)
    (reducing : d.reducing = true) (all : All R stream)
    (starts : ∀ entries : List (Value × Value), (∀ entry ∈ entries, P entry.2) →
      S (.start (.map entries))) :
    Exec.Sound (Count 1 S) (a.group stream) (b.group stream) := by
  simp only [group, bys, bys', List.getElem?_cons_zero, List.getElem?_cons_succ, Option.join_some]
  refine (keyed_sound keys _ all).bind fun entries same => ?_
  refine (groupValues_sound folds reducing (groups_sound same all)).bind fun values known => ?_
  exact .pure (.one (starts values known))

theorem valueFrom_sound {program : Program} (children : a.children = [c])
    (children' : b.children = [d]) (sound : Child.Sound (Count 1 R) (Count 1 S) c d)
    (index : Nat) (key : String) (holds : R t) :
    Exec.Sound (fun _ => True) (a.valueFrom index key t [.program program] a.children)
      (b.valueFrom index key t [.program program] b.children) := by
  rw [children, children']
  refine (sound.first holds).bind ?_
  rintro _ ⟨u, rfl, _⟩
  exact .pure trivial

theorem writeProperty_sound {cardinality : Option Cardinality} {index : Nat} {key : String}
    {value : Argument} (arguments : propertyArguments a.arguments =
      (cardinality, index, [.label key, value])) (same : a.arguments = b.arguments)
    (kind : a.kind = b.kind)
    (found : Exec.Sound (fun _ => True) (a.valueFrom (index + 1) key t [value] a.children)
      (b.valueFrom (index + 1) key t [value] b.children)) :
    Exec.Sound (fun _ => True) (a.writeProperty t) (b.writeProperty t) := by
  unfold writeProperty
  rw [← same, arguments]
  simp only [keyFrom, pure_bind, List.tail_cons]
  refine found.bind fun v _ => ?_
  split
  · split <;> exact Sound.update _
  · split <;> exact Sound.update _
  · simp only [inapplicable, kind]
    exact .throw rfl

theorem property_sound {cardinality : Option Cardinality} {index : Nat} {key : String}
    {value : Argument} (arguments : propertyArguments a.arguments =
      (cardinality, index, [.label key, value])) (same : a.arguments = b.arguments)
    (kind : a.kind = b.kind)
    (found : ∀ t ∈ stream, Exec.Sound (fun _ => True)
      (a.valueFrom (index + 1) key t [value] a.children)
      (b.valueFrom (index + 1) key t [value] b.children)) (all : All R stream) :
    Exec.Sound (All R) (a.property stream) (b.property stream) := by
  refine .forEach fun t member => ?_
  refine (writeProperty_sound arguments same kind (found t member)).bind fun _ _ => ?_
  exact .pure (Count.one (all t member)).all

namespace Loop

/-- Rounds that come to the same, with nothing that ends them early. -/
structure Sound (R : Traverser → Prop) (strict plain : Loop) : Prop where
  body : Child.Sound (Count 1 R) (All R) strict.body plain.body
  times : strict.times = plain.times
  until_ : strict.until_ = none ∧ plain.until_ = none
  emit : Option.Rel (fun x y => Option.Rel (Child.Sound (Count 1 R) fun _ => True) x.1 y.1 ∧
    x.2 = y.2) strict.emit plain.emit

/-- What is known of traversers does not depend on their loop counters. -/
structure Steady (R : Traverser → Prop) : Prop where
  enter : ∀ t, R t → R t.enterLoop
  count : ∀ t, R t → R t.countLoop
  exit : ∀ t, R t → R t.exitLoop

/-- Results, and traversers that go on. -/
def Both (R : Traverser → Prop) (found : Stream × Stream) : Prop := All R found.1 ∧ All R found.2

variable {strict plain : Loop}

theorem sift_sound {f g : Traverser → Exec (Stream × Stream)}
    (each : ∀ t ∈ stream, Exec.Sound (Both R) (f t) (g t)) :
    Exec.Sound (Both R) (sift f stream) (sift g stream) := by
  induction stream with
  | nil => exact .pure ⟨nofun, nofun⟩
  | cons t rest ih =>
      refine (each t List.mem_cons_self).bind fun found here => ?_
      refine (ih fun u later => each u (List.mem_cons_of_mem _ later)).bind fun more there => ?_
      exact .pure ⟨List.forall_mem_append.mpr ⟨here.1, there.1⟩,
        List.forall_mem_append.mpr ⟨here.2, there.2⟩⟩

theorem Sound.emits (sound : Sound R strict plain) (before : Bool) (holds : R t) :
    Exec.Sound (fun _ => True) (strict.emits before t) (plain.emits before t) := by
  unfold Loop.emits
  have emit := sound.emit
  generalize strict.emit = x at emit ⊢
  generalize plain.emit = y at emit ⊢
  cases emit with
  | none => exact .pure trivial
  | @some x y both =>
      obtain ⟨condition, asked⟩ := x
      obtain ⟨condition', asked'⟩ := y
      obtain ⟨asks, same⟩ := both
      cases (same : asked = asked')
      dsimp only
      split
      · cases asks with
        | none => exact .pure trivial
        | some asks => exact asks.hasResult holds
      · exact .pure trivial

theorem Sound.stay (sound : Sound R strict plain) (steady : Steady R) (before : Bool)
    (holds : R t) : Exec.Sound (Both R) (strict.stay before t) (plain.stay before t) := by
  simp only [Loop.stay, Loop.leaves, sound.until_.1, sound.until_.2, pure_bind]
  refine (sound.emits before holds).bind fun passed _ => ?_
  cases passed with
  | true => exact .pure ⟨(Count.one (steady.exit t holds)).all, (Count.one holds).all⟩
  | false => exact .pure ⟨nofun, (Count.one holds).all⟩

theorem Sound.pass (sound : Sound R strict plain) (steady : Steady R) (holds : R t) :
    Exec.Sound (Both R) (strict.pass t) (plain.pass t) := by
  refine (sound.body.runs [t] (.one holds)).bind fun out all => ?_
  have counted : Both R ([], out.map (·.countLoop)) :=
    ⟨nofun, List.forall_mem_map.mpr fun u member => steady.count u (all u member)⟩
  rw [sound.until_.1, sound.until_.2]
  cases out <;> exact .pure counted

theorem Sound.settle (sound : Sound R strict plain) (steady : Steady R) (holds : R t) :
    Exec.Sound (Both R) (strict.settle t) (plain.settle t) := by
  unfold Loop.settle
  rw [isDone, isDone, sound.times]
  split
  · exact .pure ⟨(Count.one (steady.exit t holds)).all, nofun⟩
  · exact sound.stay steady false holds

theorem Sound.rounds (sound : Sound R strict plain) (steady : Steady R) (limit left : Nat)
    (all : All R stream) :
    Exec.Sound (All R) (strict.rounds limit left stream) (plain.rounds limit left stream) := by
  induction left generalizing stream with
  | zero =>
      unfold Loop.rounds
      refine (sift_sound fun t member => sound.stay steady true (all t member)).bind ?_
      rintro ⟨early, next⟩ both
      dsimp only
      split
      · exact .pure both.1
      · exact .throw rfl
  | succ left ih =>
      unfold Loop.rounds
      refine (sift_sound fun t member => sound.stay steady true (all t member)).bind ?_
      rintro ⟨early, next⟩ both
      dsimp only
      split
      · exact .pure both.1
      · refine (sift_sound fun t member => sound.pass steady (both.2 t member)).bind
          fun passed made => ?_
        refine (sift_sound fun t member => sound.settle steady (made.2 t member)).bind
          fun settled late => ?_
        refine (ih late.2).bind fun more others => .pure ?_
        exact List.forall_mem_append.mpr ⟨List.forall_mem_append.mpr
          ⟨List.forall_mem_append.mpr ⟨both.1, made.1⟩, late.1⟩, others⟩

end Loop

theorem repeat_sound (limit : Nat) (children : a.children = [c]) (children' : b.children = [d])
    (body : Child.Sound (Count 1 R) (All R) c d) {times : Option Nat}
    (counts : a.loopTimes = pure times) (counts' : b.loopTimes = pure times)
    (endless : a.last? .until_ = none) (endless' : b.last? .until_ = none)
    (emits : Option.Rel (fun m n : Modulation =>
      Option.Rel (Child.Sound (Count 1 R) fun _ => True) m.children.head? n.children.head? ∧
        m.before = n.before) (a.last? .emit) (b.last? .emit))
    (steady : Loop.Steady R) (all : All R stream) :
    Exec.Sound (All R) (a.repeat_ limit stream) (b.repeat_ limit stream) := by
  have first : a.child 0 = pure c := child_eq (by simp [children])
  have first' : b.child 0 = pure d := child_eq (by simp [children'])
  simp only [repeat_, first, first', counts, counts', endless, endless', pure_bind,
    Option.map_none]
  have sound : Loop.Sound R
      ⟨c, times, none, (a.last? .emit).map fun m => (m.children.head?, m.before)⟩
      ⟨d, times, none, (b.last? .emit).map fun m => (m.children.head?, m.before)⟩ := by
    refine ⟨body, rfl, ⟨rfl, rfl⟩, ?_⟩
    generalize a.last? .emit = x at emits ⊢
    generalize b.last? .emit = y at emits ⊢
    cases emits with
    | none => exact .none
    | some both => exact .some both
  exact sound.rounds steady limit limit
    (List.forall_mem_map.mpr fun t member => steady.enter t (all t member))

end Application

end PropertyGraph
