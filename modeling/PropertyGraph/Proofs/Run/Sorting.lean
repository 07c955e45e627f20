import PropertyGraph.Proofs.Run.Nesting
import PropertyGraph.Proofs.Run.Observation
import PropertyGraph.Proofs.Value.Preorder

/-!
Sorting a stream. The keys of the traversers are computed first, one after another; then the
traversers are put in the order of their keys, criterion by criterion. Main statement: where keys
hold no floating-point numbers, this is a stable sort.
-/

namespace PropertyGraph.Application

open Exec

section Positions

variable {α : Type} {compare : α → α → Ordering} {items : List α} {i j : Nat} {x y : α}

theorem compareAt_eq (first : items[i]? = some x) (second : items[j]? = some y) :
    compareAt compare items i j = compare x y := by
  rw [compareAt, first, second]

theorem isTotalOrder_compareAt
    (swap : ∀ x ∈ items, ∀ y ∈ items, compare y x = (compare x y).swap)
    (chain : ∀ x ∈ items, ∀ y ∈ items, ∀ z ∈ items,
      (compare x y).isLE → (compare y z).isLE → (compare x z).isLE) :
    IsTotalOrder items.length (compareAt compare items) where
  swap i inside j inside' := by
    have first := List.getElem?_eq_getElem inside
    have second := List.getElem?_eq_getElem inside'
    rw [compareAt_eq first second, compareAt_eq second first]
    exact swap _ (List.getElem_mem _) _ (List.getElem_mem _)
  chain i inside j inside' k inside'' := by
    have first := List.getElem?_eq_getElem inside
    have second := List.getElem?_eq_getElem inside'
    have third := List.getElem?_eq_getElem inside''
    rw [compareAt_eq first second, compareAt_eq second third, compareAt_eq first third]
    exact chain _ (List.getElem_mem _) _ (List.getElem_mem _) _ (List.getElem_mem _)

variable {positions : List Nat}

theorem itemsAt_pairwise (ordered : positions.Pairwise (GoesBefore (compareAt compare items))) :
    (itemsAt items positions).Pairwise fun x y => (compare x y).isLE := by
  refine List.pairwise_filterMap.mpr (ordered.imp fun {i j} before x first y second => ?_)
  have below := before.isLE
  rwa [compareAt_eq first second] at below

theorem filter_itemsAt (p : α → Bool) (positions : List Nat) :
    (itemsAt items positions).filter p = itemsAt items (positions.filter (items[·]?.any p)) := by
  rw [itemsAt, itemsAt, List.filter_filterMap, List.filterMap_filter]
  refine congrArg (List.filterMap · positions) (funext fun i => ?_)
  cases items[i]? with
  | none => rfl
  | some x => cases ofKind : p x <;> simp [ofKind]

/-- Items that all compare equal keep their order: their positions come out sorted, and there is
only one way to sort them. -/
theorem itemsAt_filter {p : α → Bool} (perm : positions.Perm (List.range items.length))
    (ordered : positions.Pairwise (GoesBefore (compareAt compare items)))
    (alike : ∀ x ∈ items, ∀ y ∈ items, p x = true → p y = true → compare x y = .eq) :
    (itemsAt items positions).filter p = items.filter p := by
  have ascends : (positions.filter (items[·]?.any p)).Pairwise (· < ·) := by
    refine (ordered.filter _).imp_of_mem fun {i j} first second before => ?_
    obtain ⟨x, here, ofKind⟩ := (Option.any_eq_true ..).mp (List.mem_filter.mp first).2
    obtain ⟨y, there, ofKind'⟩ := (Option.any_eq_true ..).mp (List.mem_filter.mp second).2
    have tie := alike x (List.mem_of_getElem? here) y (List.mem_of_getElem? there) ofKind ofKind'
    rw [GoesBefore, compareAt_eq here there, tie] at before
    exact (before.resolve_left (by decide)).2
  have same : positions.filter (items[·]?.any p) =
      (List.range items.length).filter (items[·]?.any p) :=
    (perm.filter _).eq_of_pairwise (fun i j _ _ less greater => absurd less (Nat.lt_asymm greater))
      ascends (List.pairwise_lt_range.filter _)
  rw [filter_itemsAt, same, ← filter_itemsAt, itemsAt_range]

end Positions

/-- All keys tie. -/
def tied : List Value → List Value → Bool
  | x :: xs, y :: ys => x.order y == .eq && tied xs ys
  | [], [] => true
  | _, _ => false

/-- The first keys that differ decide, in the direction of their criterion. -/
inductive Precedes : List Criterion → List Value → List Value → Prop
  | ascending {c : Criterion} {criteria : List Criterion} {x y : Value} {xs ys : List Value}
      (direction : c.order ≠ .desc) (below : x.order y = .lt) :
      Precedes (c :: criteria) (x :: xs) (y :: ys)
  | descending {c : Criterion} {criteria : List Criterion} {x y : Value} {xs ys : List Value}
      (direction : c.order = .desc) (above : x.order y = .gt) :
      Precedes (c :: criteria) (x :: xs) (y :: ys)
  | later {c : Criterion} {criteria : List Criterion} {x y : Value} {xs ys : List Value}
      (tie : x.order y = .eq) (next : Precedes criteria xs ys) :
      Precedes (c :: criteria) (x :: xs) (y :: ys)

variable {c : Criterion} {criteria : List Criterion} {x y : Value} {xs ys zs : List Value}

theorem compareKeys_eq_lt (first : xs.length = criteria.length)
    (second : ys.length = criteria.length) :
    compareKeys criteria xs ys = .lt ↔ Precedes criteria xs ys := by
  induction criteria generalizing xs ys with
  | nil =>
      cases List.eq_nil_of_length_eq_zero first
      exact ⟨nofun, nofun⟩
  | cons c criteria ih =>
      obtain ⟨x, xs, rfl⟩ := List.exists_cons_of_length_eq_add_one first
      obtain ⟨y, ys, rfl⟩ := List.exists_cons_of_length_eq_add_one second
      rw [compareKeys, Ordering.then_eq_lt,
        ih (Nat.succ.inj first) (Nat.succ.inj second)]
      constructor
      · rintro (here | ⟨tie, next⟩)
        · rw [directed] at here
          split at here
          · rename_i direction
            exact .descending direction (Ordering.swap_eq_lt.mp here)
          · rename_i direction
            exact .ascending direction here
        · rw [directed] at tie
          split at tie
          · exact .later (Ordering.swap_eq_eq.mp tie) next
          · exact .later tie next
      · intro precedes
        cases precedes with
        | ascending direction below => exact .inl (by rw [directed, if_neg direction, below])
        | descending direction above => exact .inl (by rw [directed, if_pos direction, above]; rfl)
        | later tie next => exact .inr ⟨by rw [directed, tie]; split <;> rfl, next⟩

theorem compareKeys_eq_eq (first : xs.length = criteria.length)
    (second : ys.length = criteria.length) :
    compareKeys criteria xs ys = .eq ↔ tied xs ys = true := by
  induction criteria generalizing xs ys with
  | nil =>
      cases List.eq_nil_of_length_eq_zero first
      cases List.eq_nil_of_length_eq_zero second
      exact ⟨fun _ => rfl, fun _ => rfl⟩
  | cons c criteria ih =>
      obtain ⟨x, xs, rfl⟩ := List.exists_cons_of_length_eq_add_one first
      obtain ⟨y, ys, rfl⟩ := List.exists_cons_of_length_eq_add_one second
      have here : directed c.order (x.order y) = .eq ↔ x.order y = .eq := by
        rw [directed]
        split
        · exact Ordering.swap_eq_eq
        · exact Iff.rfl
      rw [compareKeys, Ordering.then_eq_eq, here, ih (Nat.succ.inj first) (Nat.succ.inj second),
        tied, Bool.and_eq_true, beq_iff_eq]

theorem compareKeys_swap (criteria : List Criterion) (xs ys : List Value) :
    compareKeys criteria ys xs = (compareKeys criteria xs ys).swap := by
  induction criteria generalizing xs ys with
  | nil => rfl
  | cons c criteria ih =>
      cases xs with
      | nil => cases ys <;> rfl
      | cons x xs =>
          cases ys with
          | nil => rfl
          | cons y ys =>
              have here : directed c.order (y.order x) = (directed c.order (x.order y)).swap := by
                rw [Value.order_swap x y]
                unfold directed
                split <;> rfl
              rw [compareKeys, compareKeys, Ordering.swap_then, here, ih]

/-- One key for each criterion, none of them with a floating-point number. -/
structure AreExact (criteria : List Criterion) (keys : List Value) : Prop where
  length : keys.length = criteria.length
  integral : ∀ key ∈ keys, ∀ z, .float z ∉ key.numbers

theorem AreExact.tail (keys : AreExact (c :: criteria) (x :: xs)) : AreExact criteria xs where
  length := Nat.succ.inj keys.length
  integral key member := keys.integral key (List.mem_cons_of_mem x member)

theorem compareKeys_compose (first : AreExact criteria xs) (second : AreExact criteria ys)
    (third : AreExact criteria zs) :
    Composes (compareKeys criteria xs ys) (compareKeys criteria ys zs)
      (compareKeys criteria xs zs) := by
  induction criteria generalizing xs ys zs with
  | nil => exact .refl
  | cons c criteria ih =>
      obtain ⟨x, xs, rfl⟩ := List.exists_cons_of_length_eq_add_one first.length
      obtain ⟨y, ys, rfl⟩ := List.exists_cons_of_length_eq_add_one second.length
      obtain ⟨z, zs, rfl⟩ := List.exists_cons_of_length_eq_add_one third.length
      have apart : Value.RoundsApart (x.numbers ++ y.numbers ++ z.numbers) := by
        refine .of_no_float fun f member => ?_
        simp only [List.mem_append] at member
        rcases member with (member | member) | member
        · exact first.integral x List.mem_cons_self f member
        · exact second.integral y List.mem_cons_self f member
        · exact third.integral z List.mem_cons_self f member
      have here : Composes (directed c.order (x.order y)) (directed c.order (y.order z))
          (directed c.order (x.order z)) := by
        have composes := Value.order_composes x y z apart
        unfold directed
        split
        · exact composes.swap
        · exact composes
      exact here.then fun _ _ => ih first.tail second.tail third.tail

theorem precedes_or_tied (first : xs.length = criteria.length)
    (second : ys.length = criteria.length) (below : (compareKeys criteria xs ys).isLE) :
    Precedes criteria xs ys ∨ tied xs ys = true := by
  rw [← compareKeys_eq_lt first second, ← compareKeys_eq_eq first second]
  exact Ordering.isLE_iff_eq_lt_or_eq_eq.mp below

theorem isUnknown_of_not_gt (unknown : x.isUnknown = true) (below : x.order y ≠ .gt) :
    y.isUnknown = true := by
  rw [Value.order_eq_compareUnknown (.inl unknown), unknown] at below
  cases known : y.isUnknown with
  | true => rfl
  | false => exact absurd (by rw [known]; rfl) below

/-- Among keys that tie so far, unknown values come last in ascending order and first in
descending order. -/
def PlacesUnknown : List Criterion → List Value → List Value → Prop
  | c :: criteria, x :: xs, y :: ys =>
      (if c.order = .desc then y.isUnknown = true → x.isUnknown = true
        else x.isUnknown = true → y.isUnknown = true) ∧
        (x.order y = .eq → PlacesUnknown criteria xs ys)
  | _, _, _ => True

theorem placesUnknown (first : xs.length = criteria.length) (second : ys.length = criteria.length)
    (sorted : Precedes criteria xs ys ∨ tied xs ys = true) : PlacesUnknown criteria xs ys := by
  induction criteria generalizing xs ys with
  | nil => trivial
  | cons c criteria ih =>
      obtain ⟨x, xs, rfl⟩ := List.exists_cons_of_length_eq_add_one first
      obtain ⟨y, ys, rfl⟩ := List.exists_cons_of_length_eq_add_one second
      have ties (tie : x.order y = .eq) (next : Precedes criteria xs ys ∨ tied xs ys = true) :
          PlacesUnknown (c :: criteria) (x :: xs) (y :: ys) := by
        refine ⟨?_, fun _ => ih (Nat.succ.inj first) (Nat.succ.inj second) next⟩
        have turned : y.order x = .eq := by rw [Value.order_swap x y, tie]; rfl
        split
        · exact fun unknown => isUnknown_of_not_gt unknown (by simp [turned])
        · exact fun unknown => isUnknown_of_not_gt unknown (by simp [tie])
      rcases sorted with precedes | tie
      · cases precedes with
        | ascending direction below =>
            refine ⟨?_, fun tie => absurd (below.symm.trans tie) (by decide)⟩
            rw [if_neg direction]
            exact fun unknown => isUnknown_of_not_gt unknown (by simp [below])
        | descending direction above =>
            refine ⟨?_, fun tie => absurd (above.symm.trans tie) (by decide)⟩
            rw [if_pos direction]
            have turned : y.order x = .lt := by rw [Value.order_swap x y, above]; rfl
            exact fun unknown => isUnknown_of_not_gt unknown (by simp [turned])
        | later tie next => exact ties tie (.inl next)
      · rw [tied, Bool.and_eq_true, beq_iff_eq] at tie
        exact ties tie.1 (.inr tie.2)

/-- A criterion takes a key from a traverser: the object, or the first value of a sub-traversal,
which may change the world. -/
inductive Takes (t : Traverser) (c : Criterion) (world : World) : Value → World → Prop
  | object (whole : c.child = none) : Takes t c world t.object world
  | first {child : Child} {u : Traverser} {rest : Stream} {key : Value} {after : World}
      (by_ : c.child = some child) (runs : (child.run [t]).run world = (.ok (u :: rest), after))
      (shown : u.object = key) : Takes t c world key after

/-- The criteria take their keys from a traverser, one after another. -/
inductive TakesKeys (t : Traverser) : List Criterion → World → List Value → World → Prop
  | nil {world : World} : TakesKeys t [] world [] world
  | cons {c : Criterion} {criteria : List Criterion} {world next after : World} {key : Value}
      {keys : List Value} (first : Takes t c world key next)
      (rest : TakesKeys t criteria next keys after) :
      TakesKeys t (c :: criteria) world (key :: keys) after

/-- All keys of a stream are produced, one traverser after another. -/
inductive Produces (criteria : List Criterion) :
    Stream → World → List (List Value × Traverser) → World → Prop
  | nil {world : World} : Produces criteria [] world [] world
  | cons {t : Traverser} {stream : Stream} {world next after : World} {keys : List Value}
      {keyed : List (List Value × Traverser)} (first : TakesKeys t criteria world keys next)
      (rest : Produces criteria stream next keyed after) :
      Produces criteria (t :: stream) world ((keys, t) :: keyed) after

section Production

variable {t : Traverser} {stream : Stream} {world after : World} {key : Value} {keys : List Value}
  {keyed : List (List Value × Traverser)}

theorem Takes.run (takes : Takes t c world key after) :
    (Child.valueOr c.child .orderWithoutKey t).run world = (.ok key, after) := by
  cases takes with
  | object whole =>
      rw [whole]
      rfl
  | first by_ runs shown =>
      rw [by_, Child.valueOr, run_bind, Child.first?, run_bind, runs, ← shown]
      rfl

theorem TakesKeys.run (takes : TakesKeys t criteria world keys after) :
    (sortKeys t criteria).run world = (.ok keys, after) := by
  induction takes with
  | nil => rfl
  | cons first _ ih =>
      rw [sortKeys, run_bind, first.run]
      dsimp only
      rw [run_bind, ih]
      rfl

theorem TakesKeys.length (takes : TakesKeys t criteria world keys after) :
    keys.length = criteria.length := by
  induction takes with
  | nil => rfl
  | cons _ _ ih => exact congrArg Nat.succ ih

theorem Produces.run (produces : Produces criteria stream world keyed after) :
    (withSortKeys criteria stream).run world = (.ok keyed, after) := by
  induction produces with
  | nil => rfl
  | cons first _ ih =>
      rw [withSortKeys, run_bind, first.run]
      dsimp only
      rw [run_bind, ih]
      rfl

theorem Produces.length (produces : Produces criteria stream world keyed after) :
    ∀ entry ∈ keyed, entry.1.length = criteria.length := by
  induction produces with
  | nil => nofun
  | cons first _ ih => exact List.forall_mem_cons.mpr ⟨first.length, ih⟩

theorem Produces.stream_eq (produces : Produces criteria stream world keyed after) :
    keyed.map (·.2) = stream := by
  induction produces with
  | nil => rfl
  | cons _ _ ih => exact congrArg (_ :: ·) ih

end Production

/-- The entries are put in the order of their keys, and entries whose keys tie stay in the order in
which they were. -/
structure SortsStably (criteria : List Criterion) (keyed sorted : List (List Value × Traverser)) :
    Prop where
  perm : sorted.Perm keyed
  ordered : sorted.Pairwise fun x y => Precedes criteria x.1 y.1 ∨ tied x.1 y.1 = true
  stable : ∀ entry ∈ keyed, sorted.filter (fun other => tied entry.1 other.1) =
    keyed.filter (fun other => tied entry.1 other.1)
  unknown : sorted.Pairwise fun x y => PlacesUnknown criteria x.1 y.1

section Stability

variable {keyed : List (List Value × Traverser)}

theorem keys_total (exact_ : ∀ entry ∈ keyed, AreExact criteria entry.1) :
    IsTotalOrder keyed.length (compareAt (fun x y => compareKeys criteria x.1 y.1) keyed) :=
  isTotalOrder_compareAt (fun x _ y _ => compareKeys_swap criteria x.1 y.1)
    fun x first y second z third =>
      (compareKeys_compose (exact_ x first) (exact_ y second) (exact_ z third)).isLE

theorem compareKeys_of_tied {xs ys zs : List Value} (first : AreExact criteria xs)
    (second : AreExact criteria ys) (third : AreExact criteria zs) (left : tied ys xs = true)
    (right : tied ys zs = true) : compareKeys criteria xs zs = .eq := by
  have before := (compareKeys_eq_eq second.length first.length).mpr left
  have behind := (compareKeys_eq_eq second.length third.length).mpr right
  have turned : compareKeys criteria xs ys = .eq := by
    rw [compareKeys_swap criteria ys xs, before]
    rfl
  rw [(compareKeys_compose first second third).left turned, behind]

/-- Any sorter sorts exact keys, and stably. -/
theorem sortsStably (s : Sorter) (exact_ : ∀ entry ∈ keyed, AreExact criteria entry.1) :
    ∃ sorted, s.sort (fun x y => compareKeys criteria x.1 y.1) keyed = some sorted ∧
      SortsStably criteria keyed sorted := by
  obtain ⟨positions, found, before⟩ := s.stable (keys_total exact_)
  have perm := itemsAt_perm (s.perm found)
  have ordered := (itemsAt_pairwise before).imp_of_mem
    (S := fun x y => Precedes criteria x.1 y.1 ∨ tied x.1 y.1 = true)
    fun {x y} first second below => precedes_or_tied
      (exact_ x (perm.mem_iff.mp first)).length (exact_ y (perm.mem_iff.mp second)).length below
  refine ⟨itemsAt keyed positions, by rw [Sorter.sort, found]; rfl, perm, ordered,
    fun entry member => ?_, ordered.imp_of_mem fun {x y} first second =>
      placesUnknown (exact_ x (perm.mem_iff.mp first)).length
        (exact_ y (perm.mem_iff.mp second)).length⟩
  exact itemsAt_filter (s.perm found) before fun x first y second left right =>
    compareKeys_of_tied (exact_ x first) (exact_ entry member) (exact_ y second) left right

end Stability

/-- Without a criterion the objects themselves are compared, in ascending order. -/
theorem criteria_of_no_by {a : Application} (without : a.modulationsOf .by_ = []) :
    a.criteria = [⟨none, .asc⟩] := by
  rw [criteria, without]
  rfl

/-- Where all keys are produced and hold no floating-point numbers, and no criterion shuffles, the
traversers come out sorted stably by the criteria. -/
theorem order_sorts_stably (engine : Engine) {a : Application} {stream : Stream}
    {world after : World} {keyed : List (List Value × Traverser)} (straight : ∀ c ∈ a.criteria, c.order ≠ .shuffle)
    (produced : Produces a.criteria stream world keyed after)
    (integral : ∀ entry ∈ keyed, ∀ key ∈ entry.1, ∀ x, .float x ∉ key.numbers) :
    ∃ sorted, (a.order engine stream).run world = (.ok (sorted.map (·.2)), after) ∧
      (sorted.map (·.2)).Perm stream ∧ SortsStably a.criteria keyed sorted ∧
      (a.modulationsOf .by_ = [] → a.criteria = [⟨none, .asc⟩]) := by
  obtain ⟨sorted, found, sorts⟩ := sortsStably engine.sorter fun entry member =>
    ⟨produced.length entry member, integral entry member⟩
  refine ⟨_, ?_, produced.stream_eq ▸ sorts.perm.map _, sorts, criteria_of_no_by⟩
  have unshuffled : a.criteria.any (·.order == .shuffle) = false := by
    rw [List.any_eq_false]
    intro c member
    simpa using straight c member
  rw [order, run_bind, produced.run]
  dsimp only
  rw [unshuffled, found]
  rfl

/-- Texts by their sizes, the longest first, and those of one size by spelling. -/
def bySizeAndSpelling : Application where
  kind := .order
  arguments := []
  children := []
  modulations := [⟨.by_, [.order .desc],
      [⟨mapEach fun t => liftFault .function (Function.size.apply t.object), false⟩], false⟩,
    ⟨.by_, [], [], false⟩]

/-- The null text has no size and goes first. -/
theorem texts_sort_by_size_and_spelling :
    ∃ sorted, sorted.map (·.2) =
        [.start Value.unknown, .start (.string "abc"), .start (.string "a"), .start (.string "b")] ∧
      SortsStably bySizeAndSpelling.criteria
        [([.int 1, .string "b"], .start (.string "b")),
          ([Value.unknown, Value.unknown], .start Value.unknown),
          ([.int 3, .string "abc"], .start (.string "abc")),
          ([.int 1, .string "a"], .start (.string "a"))] sorted := by
  have produced : Produces bySizeAndSpelling.criteria
      [.start (.string "b"), .start Value.unknown, .start (.string "abc"), .start (.string "a")]
      ⟨.empty, []⟩ [([.int 1, .string "b"], .start (.string "b")),
        ([Value.unknown, Value.unknown], .start Value.unknown),
        ([.int 3, .string "abc"], .start (.string "abc")),
        ([.int 1, .string "a"], .start (.string "a"))] ⟨.empty, []⟩ :=
    .cons (.cons (.first rfl rfl rfl) (.cons (.object rfl) .nil))
      (.cons (.cons (.first rfl rfl rfl) (.cons (.object rfl) .nil))
        (.cons (.cons (.first rfl rfl rfl) (.cons (.object rfl) .nil))
          (.cons (.cons (.first rfl rfl rfl) (.cons (.object rfl) .nil)) .nil)))
  obtain ⟨sorted, runs, _, sorts, _⟩ :=
    order_sorts_stably (.standard 1000) (by decide) produced
      (by simp [Value.numbers, Value.unknown])
  have result : (bySizeAndSpelling.order (.standard 1000) [.start (.string "b"),
      .start Value.unknown, .start (.string "abc"), .start (.string "a")]).run ⟨.empty, []⟩ =
        (.ok [.start Value.unknown, .start (.string "abc"), .start (.string "a"),
          .start (.string "b")], ⟨.empty, []⟩) := rfl
  rw [result] at runs
  have same : _ = sorted.map (·.2) := Except.ok.inj (congrArg Prod.fst runs)
  exact ⟨sorted, same.symm, sorts⟩

end PropertyGraph.Application
