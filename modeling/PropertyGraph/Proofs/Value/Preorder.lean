import PropertyGraph.Proofs.Number.Rounding
import PropertyGraph.Value.Order

/-!
The order of values: two values always compare, the same way from either side, and it is a total
preorder as far as rounding allows. Two integers are compared exactly, but each of them with a
floating-point number only after rounding, so that a number to which two different integers round
ties with both of them. Main statement: apart from such numbers, no three values compare in a circle.
-/

namespace PropertyGraph.Value

theorem compareUnknown_swap (a b : Bool) (known : Ordering) :
    compareUnknown b a known.swap = (compareUnknown a b known).swap := by
  cases a <;> cases b <;> rfl

theorem swap_of_kinds {v w : Value}
    (here : v.order w = compareUnknown v.isUnknown w.isUnknown (compare v.rank w.rank))
    (there : w.order v = compareUnknown w.isUnknown v.isUnknown (compare w.rank v.rank)) :
    w.order v = (v.order w).swap := by
  rw [here, there, ← compareUnknown_swap, Std.OrientedOrd.eq_swap (a := w.rank)]

mutual

theorem order_swap : (v w : Value) → w.order v = (v.order w).swap
  | .null, w => by cases w <;> exact swap_of_kinds rfl rfl
  | .bool a, w => by
      cases w with
      | bool b => exact Std.OrientedOrd.eq_swap
      | _ => exact swap_of_kinds rfl rfl
  | .int a, w => by
      cases w with
      | int b => exact Std.OrientedOrd.eq_swap
      | float b => exact Std.OrientedOrd.eq_swap
      | _ => exact swap_of_kinds rfl rfl
  | .float a, w => by
      cases w with
      | int b => exact Std.OrientedOrd.eq_swap
      | float b => exact Std.OrientedOrd.eq_swap
      | _ => exact swap_of_kinds rfl rfl
  | .string a, w => by
      cases w with
      | string b =>
          rw [order, order, ← compareUnknown_swap]
          exact congrArg _ Std.OrientedOrd.eq_swap
      | _ => exact swap_of_kinds rfl rfl
  | .list a, w => by
      cases w with
      | list b => exact orderItems_swap a b
      | _ => exact swap_of_kinds rfl rfl
  | .map a, w => by
      cases w with
      | map b => exact Std.OrientedOrd.eq_swap
      | _ => exact swap_of_kinds rfl rfl
  | .vertex a, w => by
      cases w with
      | vertex b => exact Std.OrientedOrd.eq_swap
      | _ => exact swap_of_kinds rfl rfl
  | .edge a, w => by
      cases w with
      | edge b => exact Std.OrientedOrd.eq_swap
      | _ => exact swap_of_kinds rfl rfl
  | .property _ k v, w => by
      cases w with
      | property _ l w =>
          -- Owners are not compared.
          rw [order, order, Ordering.swap_then, order_swap v w, Std.OrientedOrd.eq_swap (a := l)]
      | _ => exact swap_of_kinds rfl rfl
termination_by structural v => v

theorem orderItems_swap : (as bs : List Value) → orderItems bs as = (orderItems as bs).swap
  | [], bs => by cases bs <;> rfl
  | _ :: _, [] => rfl
  | a :: as, b :: bs => by
      rw [orderItems, orderItems, Ordering.swap_then, order_swap a b, orderItems_swap as bs]
termination_by structural v => v

end

theorem order_self (v : Value) : v.order v = .eq := by
  have same := order_swap v v
  cases compared : v.order v with
  | eq => rfl
  | _ =>
      rw [compared] at same
      cases same

theorem isLE_of_not_lt {v w : Value} (unordered : v.order w ≠ .lt) : (w.order v).isLE := by
  rw [order_swap v w]
  cases compared : v.order w with
  | lt => exact absurd compared unordered
  | eq => rfl
  | gt => rfl

/-- The order takes no three of the values in a circle. -/
def Ordered (values : List Value) : Prop :=
  ∀ u ∈ values, ∀ v ∈ values, ∀ w ∈ values,
    (u.order v).isLE → (v.order w).isLE → (u.order w).isLE

end PropertyGraph.Value

/-! ## Three values -/

namespace PropertyGraph

/-- The comparisons of three things, first with second, second with third and first with third,
fit one order. -/
structure Composes (p q r : Ordering) : Prop where
  left : p = .eq → r = q
  right : q = .eq → r = p
  both : p = q → r = p

namespace Composes

variable {p q r p' q' r' : Ordering}

theorem isLE (composes : Composes p q r) (below : p.isLE) (above : q.isLE) : r.isLE := by
  cases first : p with
  | eq => exact composes.left first ▸ above
  | gt => exact absurd below (by simp [first])
  | lt =>
      cases second : q with
      | eq => exact composes.right second ▸ below
      | gt => exact absurd above (by simp [second])
      | lt => exact composes.both (first.trans second.symm) ▸ below

theorem refl : Composes .eq .eq .eq := ⟨fun _ => rfl, fun _ => rfl, fun _ => rfl⟩

theorem swap (composes : Composes p q r) : Composes p.swap q.swap r.swap where
  left tie := congrArg _ (composes.left (Ordering.swap_eq_eq.mp tie))
  right tie := congrArg _ (composes.right (Ordering.swap_eq_eq.mp tie))
  both same := congrArg _ (composes.both (Ordering.swap_inj.mp same))

theorem «then» (first : Composes p q r) (next : p = .eq → q = .eq → Composes p' q' r') :
    Composes (p.then p') (q.then q') (r.then r') := by
  cases p with
  | eq =>
      have same : r = q := first.left rfl
      subst same
      cases r with
      | eq => exact next rfl rfl
      | lt | gt => exact ⟨fun _ => rfl, nofun, fun tie => tie.symm⟩
  | lt | gt =>
      cases q with
      | eq =>
          cases first.right rfl
          exact ⟨nofun, fun _ => rfl, fun _ => rfl⟩
      | lt | gt =>
          refine ⟨nofun, nofun, fun same => ?_⟩
          cases same
          all_goals
            cases first.both rfl
            rfl

theorem compare {α : Type} [Ord α] [Std.TransOrd α] (a b c : α) :
    Composes (Ord.compare a b) (Ord.compare b c) (Ord.compare a c) where
  left tie := Std.TransCmp.congr_left tie
  right tie := (Std.TransCmp.congr_right tie).symm
  both same := by
    cases first : Ord.compare a b with
    | lt => exact Std.TransCmp.lt_trans first (same ▸ first)
    | eq => exact Std.TransCmp.eq_trans first (same ▸ first)
    | gt => exact Std.TransCmp.gt_trans first (same ▸ first)

end Composes

namespace Value

/-- The place of a kind of values, the last one for unknown values. -/
def place (v : Value) : Nat := if v.isUnknown then 8 else v.rank

variable {u v w : Value}

theorem rank_lt (known : v.isUnknown = false) : v.rank < 8 := by
  cases v <;> simp_all [rank, isUnknown]

theorem place_known (known : v.isUnknown = false) : v.place = v.rank := by simp [place, known]

theorem place_unknown (unknown : v.isUnknown = true) : v.place = 8 := by simp [place, unknown]

theorem isUnknown_of_place (last : v.place = 8) : v.isUnknown = true := by
  cases known : v.isUnknown with
  | true => rfl
  | false =>
      rw [place_known known] at last
      exact absurd last (Nat.ne_of_lt (rank_lt known))

theorem order_apart (apart : v.rank ≠ w.rank) :
    v.order w = compareUnknown v.isUnknown w.isUnknown (compare v.rank w.rank) := by
  cases v <;> cases w <;> first | exact absurd rfl apart | rfl

/-- Where a value is unknown, nothing else counts. -/
theorem order_eq_compareUnknown (unknown : v.isUnknown = true ∨ w.isUnknown = true) :
    v.order w = compareUnknown v.isUnknown w.isUnknown (v.order w) := by
  by_cases apart : v.rank = w.rank
  · cases v with
    | string a =>
        cases w with
        | string b =>
            simp only [order, isUnknown]
            cases a == nullText <;> cases b == nullText <;> rfl
        | _ => cases apart
    | null =>
        cases w with
        | null => rfl
        | _ => cases apart
    | _ =>
        rcases unknown with unknown | unknown
        · cases unknown
        · cases w <;> simp_all [isUnknown, rank]
  · rw [order_apart apart]
    cases v.isUnknown <;> cases w.isUnknown <;> rfl

theorem order_unknown (first : v.isUnknown = true) (second : w.isUnknown = true) :
    v.order w = .eq := by
  rw [order_eq_compareUnknown (.inl first), first, second]
  rfl

theorem order_of_place (apart : v.place ≠ w.place) : v.order w = compare v.place w.place := by
  cases first : v.isUnknown with
  | true =>
      cases second : w.isUnknown with
      | true => exact absurd ((place_unknown first).trans (place_unknown second).symm) apart
      | false =>
          rw [order_eq_compareUnknown (.inl first), first, second, place_unknown first,
            place_known second, Nat.compare_eq_gt.mpr (rank_lt second)]
          rfl
  | false =>
      cases second : w.isUnknown with
      | true =>
          rw [order_eq_compareUnknown (.inr second), first, second, place_known first,
            place_unknown second, Nat.compare_eq_lt.mpr (rank_lt first)]
          rfl
      | false =>
          rw [place_known first, place_known second] at apart ⊢
          rw [order_apart apart, first, second]
          rfl

theorem order_eq_then (v w : Value) :
    v.order w = (compare v.place w.place).then (v.order w) := by
  by_cases same : v.place = w.place
  · rw [Nat.compare_eq_eq.mpr same]
    rfl
  · have apart := same
    rw [← Nat.compare_eq_eq] at apart
    rw [order_of_place same]
    cases compared : compare v.place w.place with
    | eq => exact absurd compared apart
    | lt | gt => rfl

mutual

/-- The numbers that a comparison may come to. -/
def numbers : Value → List Value
  | .int i => [.int i]
  | .float x => [.float x]
  | .list items => numbersIn items
  | .property _ _ v => v.numbers
  | _ => []
termination_by structural v => v

def numbersIn : List Value → List Value
  | [] => []
  | v :: rest => v.numbers ++ numbersIn rest
termination_by structural v => v

end

theorem isNumber_of_rank (same : v.rank = 7) : v.isNumber = true := by
  cases v <;> first | rfl | cases same

theorem numbers_eq (number : v.isNumber = true) : v.numbers = [v] := by
  cases v <;> first | rfl | cases number

theorem numbers_subset {values : List Value} (member : v ∈ values) :
    v.numbers ⊆ numbersIn values := by
  induction values with
  | nil => cases member
  | cons first rest ih =>
      rcases List.mem_cons.mp member with rfl | later
      · exact List.subset_append_left _ _
      · exact List.subset_append_of_subset_right _ (ih later)

/-- Two different integers round to the same number. -/
def collides : Value → Value → Value → Bool
  | .int i, .float x, .int j =>
      Binary64.ofInt i.toInt == x && Binary64.ofInt j.toInt == x && i != j
  | _, _, _ => false

/-- No two different integers round to the same number, where that number is there as well. -/
def RoundsApart (values : List Value) : Prop :=
  ∀ u ∈ values, ∀ v ∈ values, ∀ w ∈ values, collides u v w = false

instance (values : List Value) : Decidable (RoundsApart values) :=
  inferInstanceAs (Decidable (∀ u ∈ values, _))

theorem RoundsApart.mono {fewer more : List Value} (apart : RoundsApart more)
    (among : fewer ⊆ more) : RoundsApart fewer := fun u first v second w third =>
  apart u (among first) v (among second) w (among third)

theorem RoundsApart.of_no_float {values : List Value} (without : ∀ x, .float x ∉ values) :
    RoundsApart values := by
  intro u _ v second w _
  cases v with
  | float x => exact absurd second (without x)
  | _ => cases u <;> rfl

/-- How two integers compare that round to the same number. -/
def compareExact : Value → Value → Ordering
  | .int i, .int j => compare i.toInt j.toInt
  | _, _ => .eq

theorem compare_rounded (i j : Int) :
    compare i j = (compare (Binary64.ofInt i).orderKey (Binary64.ofInt j).orderKey).then
      (compare i j) := by
  cases rounded : compare (Binary64.ofInt i).orderKey (Binary64.ofInt j).orderKey with
  | eq => rfl
  | lt =>
      refine Int.compare_eq_lt.mpr (Int.lt_of_not_ge fun below => ?_)
      have kept := Binary64.orderKey_ofInt_mono below
      rw [Int.compare_eq_lt] at rounded
      omega
  | gt =>
      refine Int.compare_eq_gt.mpr (Int.lt_of_not_ge fun below => ?_)
      have kept := Binary64.orderKey_ofInt_mono below
      rw [Int.compare_eq_gt] at rounded
      omega

/-- The key of a number after rounding. -/
def roundedKey : Value → Int
  | .int i => (Binary64.ofInt i.toInt).orderKey
  | .float x => x.orderKey
  | _ => 0

/-- Numbers compare after rounding, and integers that round alike exactly. -/
theorem order_numbers (first : v.isNumber = true) (second : w.isNumber = true) :
    v.order w = (compare v.roundedKey w.roundedKey).then (compareExact v w) := by
  cases v with
  | int i =>
      cases w with
      | int j => exact compare_rounded i.toInt j.toInt
      | float y => exact (Ordering.then_eq ..).symm
      | _ => cases second
  | float x =>
      cases w with
      | int j => exact (Ordering.then_eq ..).symm
      | float y => exact (Ordering.then_eq ..).symm
      | _ => cases second
  | _ => cases first

theorem compareExact_eq {x : Binary64} (apart : collides v (.float x) w = false)
    (first : v.roundedKey = x.orderKey) (second : w.roundedKey = x.orderKey) :
    compareExact v w = .eq := by
  cases v with
  | int i =>
      cases w with
      | int j =>
          have same : i = j := by
            simpa [collides, Binary64.orderKey_inj.mp first, Binary64.orderKey_inj.mp second]
              using apart
          rw [same]
          exact Std.ReflOrd.compare_self
      | _ => rfl
  | _ => rfl

theorem numbers_compose (first : u.isNumber = true) (second : v.isNumber = true)
    (third : w.isNumber = true) (apart : RoundsApart [u, v, w]) :
    Composes (u.order v) (v.order w) (u.order w) := by
  rw [order_numbers first second, order_numbers second third, order_numbers first third]
  refine (Composes.compare _ _ _).then fun same same' => ?_
  rw [Int.compare_eq_eq] at same same'
  have tied {x : Binary64} (there : .float x ∈ [u, v, w]) (key : v.roundedKey = x.orderKey) :
      Composes (compareExact u v) (compareExact v w) (compareExact u w) := by
    have exact_ {a b : Value} (left : a ∈ [u, v, w]) (right : b ∈ [u, v, w])
        (keyLeft : a.roundedKey = x.orderKey) (keyRight : b.roundedKey = x.orderKey) :
        compareExact a b = .eq :=
      compareExact_eq (apart a left (.float x) there b right) keyLeft keyRight
    rw [exact_ (by simp) (by simp) (same.trans key) key,
      exact_ (by simp) (by simp) key (same'.symm.trans key),
      exact_ (by simp) (by simp) (same.trans key) (same'.symm.trans key)]
    exact .refl
  cases u with
  | float x => exact tied (by simp) same.symm
  | int i =>
      cases v with
      | float y => exact tied (by simp) rfl
      | int j =>
          cases w with
          | float z => exact tied (by simp) same'
          | int k => exact .compare _ _ _
          | _ => cases third
      | _ => cases second
  | _ => cases first

theorem unknowns_compose (first : u.isUnknown = true) (second : v.isUnknown = true)
    (third : w.isUnknown = true) : Composes (u.order v) (v.order w) (u.order w) := by
  rw [order_unknown first second, order_unknown second third, order_unknown first third]
  exact .refl

theorem order_string_known {a b : String} (first : isUnknown (.string a) = false)
    (second : isUnknown (.string b) = false) :
    order (.string a) (.string b) = compare a b := by
  simp only [isUnknown] at first second
  rw [order, first, second]
  rfl

theorem composes_of_kinds (alike : u.isUnknown = false → v.isUnknown = false →
    w.isUnknown = false → u.rank = v.rank → v.rank = w.rank →
      Composes (u.order v) (v.order w) (u.order w)) :
    Composes (u.order v) (v.order w) (u.order w) := by
  rw [order_eq_then u v, order_eq_then v w, order_eq_then u w]
  refine (Composes.compare _ _ _).then fun same same' => ?_
  rw [Nat.compare_eq_eq] at same same'
  cases unknown : u.isUnknown with
  | true =>
      have second := isUnknown_of_place (same.symm.trans (place_unknown unknown))
      have third := isUnknown_of_place (same'.symm.trans (place_unknown second))
      exact unknowns_compose unknown second third
  | false =>
      have known {a b : Value} (known : a.isUnknown = false) (place : a.place = b.place) :
          b.isUnknown = false := by
        cases unknown : b.isUnknown with
        | false => rfl
        | true =>
            rw [place_unknown unknown] at place
            rw [isUnknown_of_place place] at known
            cases known
      have second := known unknown same
      have third := known second same'
      rw [place_known unknown, place_known second] at same
      rw [place_known second, place_known third] at same'
      exact alike unknown second third same same'

mutual

theorem order_composes : (u v w : Value) → RoundsApart (u.numbers ++ v.numbers ++ w.numbers) →
    Composes (u.order v) (v.order w) (u.order w)
  | .null, v, w, _ => composes_of_kinds nofun
  | .bool a, v, w, _ => composes_of_kinds fun _ _ _ same same' => by
      cases v with
      | bool b =>
          cases w with
          | bool c => exact .compare a b c
          | _ => cases same'
      | _ => cases same
  | .int i, v, w, apart => composes_of_kinds fun _ _ _ same same' => by
      have second := isNumber_of_rank same.symm
      have third := isNumber_of_rank (same'.symm.trans same.symm)
      rw [numbers_eq second, numbers_eq third] at apart
      exact numbers_compose rfl second third apart
  | .float x, v, w, apart => composes_of_kinds fun _ _ _ same same' => by
      have second := isNumber_of_rank same.symm
      have third := isNumber_of_rank (same'.symm.trans same.symm)
      rw [numbers_eq second, numbers_eq third] at apart
      exact numbers_compose rfl second third apart
  | .string a, v, w, _ => composes_of_kinds fun first second third same same' => by
      cases v with
      | string b =>
          cases w with
          | string c =>
              rw [order_string_known first second, order_string_known second third,
                order_string_known first third]
              exact .compare a b c
          | _ => cases same'
      | _ => cases same
  | .list us, v, w, apart => composes_of_kinds fun _ _ _ same same' => by
      cases v with
      | list vs =>
          cases w with
          | list ws => exact orderItems_compose us vs ws apart
          | _ => cases same'
      | _ => cases same
  | .map a, v, w, _ => composes_of_kinds fun _ _ _ same same' => by
      cases v with
      | map b =>
          cases w with
          | map c => exact .compare a.length b.length c.length
          | _ => cases same'
      | _ => cases same
  | .vertex a, v, w, _ => composes_of_kinds fun _ _ _ same same' => by
      cases v with
      | vertex b =>
          cases w with
          | vertex c => exact .compare a.id.toNat b.id.toNat c.id.toNat
          | _ => cases same'
      | _ => cases same
  | .edge a, v, w, _ => composes_of_kinds fun _ _ _ same same' => by
      cases v with
      | edge b =>
          cases w with
          | edge c => exact .compare a.id.toNat b.id.toNat c.id.toNat
          | _ => cases same'
      | _ => cases same
  | .property _ k u, v, w, apart => composes_of_kinds fun _ _ _ same same' => by
      cases v with
      | property _ l v =>
          cases w with
          | property _ m w => exact (Composes.compare k l m).then fun _ _ => order_composes u v w apart
          | _ => cases same'
      | _ => cases same
termination_by structural u => u

theorem orderItems_compose : (us vs ws : List Value) →
    RoundsApart (numbersIn us ++ numbersIn vs ++ numbersIn ws) →
    Composes (orderItems us vs) (orderItems vs ws) (orderItems us ws)
  | [], [], _, _ => ⟨fun _ => rfl, fun tie => tie, fun same => same.symm⟩
  | [], _ :: _, [], _ => ⟨nofun, nofun, nofun⟩
  | [], _ :: _, _ :: _, _ => ⟨nofun, fun _ => rfl, fun _ => rfl⟩
  | _ :: _, [], [], _ => ⟨nofun, fun _ => rfl, nofun⟩
  | _ :: _, [], _ :: _, _ => ⟨nofun, nofun, nofun⟩
  | _ :: _, _ :: _, [], _ => ⟨fun _ => rfl, nofun, fun same => same.symm⟩
  | u :: us, v :: vs, w :: ws, apart => by
      have first := order_composes u v w (apart.mono (by grind [numbersIn]))
      exact first.then fun _ _ => orderItems_compose us vs ws (apart.mono (by grind [numbersIn]))
termination_by structural u => u

end

/-- The values of a list compare in no circle, if no number among them is one to which two different
integers among them round. -/
theorem ordered_of_apart {values : List Value} (apart : RoundsApart (numbersIn values)) :
    Ordered values := fun u first v second w third below above =>
  (order_composes u v w (apart.mono (List.append_subset.mpr
    ⟨List.append_subset.mpr ⟨numbers_subset first, numbers_subset second⟩,
      numbers_subset third⟩))).isLE below above

theorem order_rounded (i : Int64) : order (.int i) (.float (.ofInt i.toInt)) = .eq :=
  Binary64.totalCompare_eq.mpr rfl

theorem apart_of_ordered {values : List Value} (ordered : Ordered values) :
    RoundsApart values := by
  intro u first v second w third
  cases u with
  | int i =>
      cases v with
      | float x =>
          cases w with
          | int j =>
              -- both integers tie with the number between them, so they tie with each other
              have le {a b : Int64} (left : .int a ∈ values) (right : .int b ∈ values)
                  (roundsA : Binary64.ofInt a.toInt = x) (roundsB : Binary64.ofInt b.toInt = x) :
                  a.toInt ≤ b.toInt := by
                subst roundsB
                have below : (order (.int a) (.float (.ofInt b.toInt))).isLE := by
                  rw [← roundsA, order_rounded]
                  rfl
                have above : (order (.float (.ofInt b.toInt)) (.int b)).isLE := by
                  rw [order_swap (.int b), order_rounded]
                  rfl
                exact Int.isLE_compare.mp (ordered _ left _ second _ right below above)
              refine Bool.eq_false_iff.mpr fun clash => ?_
              simp only [collides, Bool.and_eq_true, beq_iff_eq, bne_iff_ne] at clash
              obtain ⟨⟨roundsI, roundsJ⟩, different⟩ := clash
              exact different (Int64.toInt_inj.mp (Int.le_antisymm
                (le first third roundsI roundsJ) (le third first roundsJ roundsI)))
          | _ => rfl
      | _ => rfl
  | _ => rfl

/-- The order is the same from either side, ties each value with itself, and is transitive unless
one number in the values is what two different integers in them round to. Three numbers are ordered
only without that. -/
theorem order_is_total_preorder (u v w : Value) :
    v.order u = (u.order v).swap ∧ u.order u = .eq ∧
      (RoundsApart (u.numbers ++ v.numbers ++ w.numbers) →
        (u.order v).isLE → (v.order w).isLE → (u.order w).isLE) ∧
      (u.isNumber → v.isNumber → w.isNumber →
        (Ordered [u, v, w] ↔ RoundsApart [u, v, w])) := by
  refine ⟨order_swap u v, order_self u, fun apart => (order_composes u v w apart).isLE, ?_⟩
  intro first second third
  refine ⟨apart_of_ordered, fun apart => ordered_of_apart ?_⟩
  rwa [numbersIn, numbersIn, numbersIn, numbersIn, numbers_eq first, numbers_eq second,
    numbers_eq third]

/-- A large integer ties with the number that it rounds to. -/
theorem rounding_of_one_integer_keeps_order :
    RoundsApart (numbers (.list [.int 9007199254740993, .bool false]) ++
      numbers (.list [.float (.ofInt 9007199254740992), .int 7]) ++
        numbers (.list [.int 9007199254740993, .int 8])) ∧
    (order (.list [.int 9007199254740993, .bool false])
      (.list [.int 9007199254740993, .int 8])).isLE := by
  have apart : RoundsApart (numbers (.list [.int 9007199254740993, .bool false]) ++
      numbers (.list [.float (.ofInt 9007199254740992), .int 7]) ++
        numbers (.list [.int 9007199254740993, .int 8])) := by decide +kernel
  exact ⟨apart, (order_is_total_preorder _ (.list [.float (.ofInt 9007199254740992), .int 7])
    _).2.2.1 apart (by decide +kernel) (by decide +kernel)⟩

/-- Two integers tie with the number between them, and differ. -/
theorem rounded_integers_compare_in_a_circle :
    order (.int 9007199254740993) (.float (.ofInt 9007199254740992)) = .eq ∧
      order (.float (.ofInt 9007199254740992)) (.int 9007199254740992) = .eq ∧
      order (.int 9007199254740993) (.int 9007199254740992) = .gt := by decide +kernel

end Value

end PropertyGraph
