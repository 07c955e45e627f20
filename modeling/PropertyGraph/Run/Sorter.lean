/-!
Sorting and shuffling, as far as a traversal may rely on them. A sorter sees of the items only how
those at two positions compare. Where the order is total it sorts stably; only where it is not may
it give up, and otherwise it leaves the items in some order.
-/

namespace PropertyGraph

/-- Comparing so many positions the other way round turns the result around, and what is not greater
along a chain is not greater at its ends. -/
structure IsTotalOrder (n : Nat) (compare : Nat → Nat → Ordering) : Prop where
  swap : ∀ i, i < n → ∀ j, j < n → compare j i = (compare i j).swap
  chain : ∀ i, i < n → ∀ j, j < n → ∀ k, k < n →
    (compare i j).isLE → (compare j k).isLE → (compare i k).isLE

instance (n : Nat) (compare : Nat → Nat → Ordering) : Decidable (IsTotalOrder n compare) :=
  decidable_of_iff
    ((∀ i, i < n → ∀ j, j < n → compare j i = (compare i j).swap) ∧
      ∀ i, i < n → ∀ j, j < n → ∀ k, k < n →
        (compare i j).isLE → (compare j k).isLE → (compare i k).isLE)
    ⟨fun ⟨swap, chain⟩ => ⟨swap, chain⟩, fun total => ⟨total.swap, total.chain⟩⟩

/-- What a stable sort puts first: what is smaller, and of what is equal what stood first. -/
def GoesBefore (compare : Nat → Nat → Ordering) (i j : Nat) : Prop :=
  compare i j = .lt ∨ compare i j = .eq ∧ i < j

namespace GoesBefore

variable {compare : Nat → Nat → Ordering} {i j : Nat}

theorem isLE (before : GoesBefore compare i j) : (compare i j).isLE := by
  rcases before with less | ⟨same, _⟩
  · rw [less]; rfl
  · rw [same]; rfl

theorem of_isLE (earlier : i < j) (below : (compare i j).isLE) : GoesBefore compare i j := by
  cases compared : compare i j with
  | lt => exact .inl compared
  | eq => exact .inr ⟨compared, earlier⟩
  | gt => simp [compared] at below

end GoesBefore

/-- The new order of so many positions, or nothing if the sort gives up. -/
structure Sorter where
  positions (n : Nat) (compare : Nat → Nat → Ordering) : Option (List Nat)
  perm {n : Nat} {compare : Nat → Nat → Ordering} {order : List Nat} :
    positions n compare = some order → order.Perm (List.range n)
  stable {n : Nat} {compare : Nat → Nat → Ordering} : IsTotalOrder n compare →
    ∃ order, positions n compare = some order ∧ order.Pairwise (GoesBefore compare)

structure Shuffle where
  positions (n : Nat) : List Nat
  perm (n : Nat) : (positions n).Perm (List.range n)

section Items

variable {α : Type} {items : List α} {positions : List Nat}

def itemsAt (items : List α) (positions : List Nat) : List α := positions.filterMap (items[·]?)

theorem itemsAt_range (items : List α) : itemsAt items (List.range items.length) = items := by
  unfold itemsAt
  induction items with
  | nil => rfl
  | cons x rest ih =>
      rw [List.length_cons, List.range_succ_eq_map, List.filterMap_cons, List.filterMap_map]
      exact congrArg (x :: ·) ih

theorem itemsAt_perm (perm : positions.Perm (List.range items.length)) :
    (itemsAt items positions).Perm items := by
  have moved := perm.filterMap (items[·]?)
  rwa [← itemsAt, ← itemsAt, itemsAt_range] at moved

def compareAt (compare : α → α → Ordering) (items : List α) (i j : Nat) : Ordering :=
  match items[i]?, items[j]? with
  | some x, some y => compare x y
  | _, _ => .eq

def Sorter.sort (s : Sorter) (compare : α → α → Ordering) (items : List α) : Option (List α) :=
  (s.positions items.length (compareAt compare items)).map (itemsAt items)

def Shuffle.apply (s : Shuffle) (items : List α) : List α :=
  itemsAt items (s.positions items.length)

theorem Sorter.sort_perm {s : Sorter} {compare : α → α → Ordering} {sorted : List α}
    (sorts : s.sort compare items = some sorted) : sorted.Perm items := by
  obtain ⟨order, found, rfl⟩ := Option.map_eq_some_iff.mp sorts
  exact itemsAt_perm (s.perm found)

theorem Shuffle.apply_perm (s : Shuffle) (items : List α) : (s.apply items).Perm items :=
  itemsAt_perm (s.perm items.length)

end Items

/-! ### The usual sorter -/

namespace Sorter

/-- Puts an item into a list that runs from the last item to the first, after those it is below. -/
def insertLast (below : Nat → Nat → Bool) (x : Nat) : List Nat → List Nat
  | [] => [x]
  | y :: rest => if below x y then y :: insertLast below x rest else x :: y :: rest

/-- Inserts items one by one behind those that are sorted. -/
def insertAll (below : Nat → Nat → Bool) (sorted items : List Nat) : List Nat :=
  (items.foldl (fun reversed x => insertLast below x reversed) sorted.reverse).reverse

/-- Four items in order, by five comparisons. -/
def sortFour (below : Nat → Nat → Bool) (w x y z : Nat) : List Nat :=
  let (a, b) := if below x w then (x, w) else (w, x)
  let (c, d) := if below z y then (z, y) else (y, z)
  let between (first second : Nat) : List Nat :=
    if below second first then [second, first] else [first, second]
  match below c a, below d b with
  | false, false => a :: between b c ++ [d]
  | false, true => a :: between c d ++ [b]
  | true, false => c :: between a b ++ [d]
  | true, true => c :: between a d ++ [b]

def sortHalf (below : Nat → Nat → Bool) : List Nat → List Nat
  | w :: x :: y :: z :: rest => insertAll below (sortFour below w x y z) rest
  | items => insertAll below [] items

/-- What so many steps of a merge take, and what they leave of the first list. -/
def mergeSome (takesFirst : Nat → Nat → Bool) : Nat → List Nat → List Nat → List Nat × List Nat
  | steps + 1, x :: xs, y :: ys =>
      if takesFirst x y then
        let (taken, left) := mergeSome takesFirst steps xs (y :: ys)
        (x :: taken, left)
      else
        let (taken, left) := mergeSome takesFirst steps (x :: xs) ys
        (y :: taken, left)
  | _, xs, _ => ([], xs)

/-- Merges two halves, of which the second may have one item more, from both ends at once. On an
order that is not total the ends may fail to meet. -/
def mergeEnds (below : Nat → Nat → Bool) (low high : List Nat) : List Nat :=
  let half := low.length
  let (front, above) := mergeSome (fun x y => !below y x) half low high
  let (back, beneath) := mergeSome (fun x y => below y x) half low.reverse high.reverse
  let fromLow := half - above.length
  let between :=
    if high.length = half then []
    else if fromLow < beneath.length then above.take 1
    else (high.drop (half - fromLow)).take 1
  front ++ between ++ back.reverse

/-- Both halves sorted and merged. -/
def merged (n : Nat) (compare : Nat → Nat → Ordering) : List Nat :=
  let below := fun i j => compare i j == .lt
  let (low, high) := (List.range n).splitAt (n / 2)
  mergeEnds below (sortHalf below low) (sortHalf below high)

theorem insertLast_perm (below : Nat → Nat → Bool) (x : Nat) (items : List Nat) :
    (insertLast below x items).Perm (x :: items) := by
  induction items with
  | nil => exact .refl _
  | cons y rest ih =>
      rw [insertLast]
      split
      · exact (ih.cons y).trans (.swap x y rest)
      · exact .refl _

section Inserted

variable {n : Nat} {compare : Nat → Nat → Ordering}

theorem insertLast_ordered (total : IsTotalOrder n compare) {x : Nat} (inside : x < n)
    {reversed : List Nat} (first : ∀ y ∈ reversed, y < x)
    (ordered : reversed.Pairwise fun later earlier => GoesBefore compare earlier later) :
    (insertLast (fun i j => compare i j == .lt) x reversed).Pairwise
      fun later earlier => GoesBefore compare earlier later := by
  induction reversed with
  | nil => exact List.pairwise_singleton _ _
  | cons y rest ih =>
      obtain ⟨before, others⟩ := List.pairwise_cons.mp ordered
      have lower := first y List.mem_cons_self
      rw [insertLast]
      split
      · rename_i below
        have after := ih (fun z member => first z (List.mem_cons_of_mem y member)) others
        refine List.pairwise_cons.mpr ⟨fun z member => ?_, after⟩
        rcases List.mem_cons.mp ((insertLast_perm _ x rest).mem_iff.mp member) with rfl | member
        · exact .inl (beq_iff_eq.mp below)
        · exact before z member
      · rename_i stays
        have least : (compare y x).isLE := by
          rw [total.swap x inside y (Nat.lt_trans lower inside)]
          cases compared : compare x y <;> simp_all
        refine List.pairwise_cons.mpr ⟨fun z member => ?_, ordered⟩
        rcases List.mem_cons.mp member with rfl | member
        · exact .of_isLE lower least
        · have early := first z (List.mem_cons_of_mem y member)
          exact .of_isLE early (total.chain z (Nat.lt_trans early inside) y
            (Nat.lt_trans lower inside) x inside (before z member).isLE least)

/-- The positions below one, inserted from the first to the last. -/
def insertRange (k : Nat) (compare : Nat → Nat → Ordering) : List Nat :=
  (List.range k).foldl (fun reversed x => insertLast (fun i j => compare i j == .lt) x reversed) []

theorem insertRange_perm (k : Nat) (compare : Nat → Nat → Ordering) :
    (insertRange k compare).Perm (List.range k) := by
  induction k with
  | zero => exact .refl _
  | succ k ih =>
      rw [insertRange, List.range_succ, List.foldl_append]
      refine (insertLast_perm _ k _).trans ?_
      exact (ih.cons k).trans (List.perm_append_singleton k _).symm

theorem insertRange_ordered (total : IsTotalOrder n compare) {k : Nat} (inside : k ≤ n) :
    (insertRange k compare).Pairwise fun later earlier => GoesBefore compare earlier later := by
  induction k with
  | zero => exact .nil
  | succ k ih =>
      rw [insertRange, List.range_succ, List.foldl_append]
      refine insertLast_ordered total inside (fun y member => ?_) (ih (Nat.le_of_succ_le inside))
      exact List.mem_range.mp ((insertRange_perm k compare).mem_iff.mp member)

end Inserted

/-- Up to twenty items are inserted; of some more both halves are merged from the ends, which may
find out that the order is not total. -/
def standard : Sorter where
  positions n compare :=
    if n ≤ 20 ∨ 32 < n ∨ IsTotalOrder n compare then some (insertRange n compare).reverse
    else if (merged n compare).isPerm (List.range n) then some (merged n compare)
    else none
  perm := by
    intro n compare order found
    split at found
    · cases found
      exact (List.reverse_perm _).trans (insertRange_perm n compare)
    · split at found
      · rename_i permuted
        cases found
        exact List.isPerm_iff.mp permuted
      · cases found
  stable := by
    intro n compare total
    refine ⟨_, if_pos (.inr (.inr total)), List.pairwise_reverse.mpr ?_⟩
    exact insertRange_ordered total (Nat.le_refl n)

end Sorter

/-- A shuffle that leaves all items where they are. -/
def Shuffle.still : Shuffle := ⟨List.range, fun _ => .refl _⟩

/-- What runs a plan: how many rounds a loop may have, how it sorts and how it shuffles. -/
structure Engine where
  loopLimit : Nat
  sorter : Sorter
  shuffle : Shuffle

def Engine.standard (loopLimit : Nat) : Engine := ⟨loopLimit, .standard, .still⟩

end PropertyGraph
