import Mathlib.Algebra.Ring.Int.Defs
import Mathlib.Data.List.Induction
import Mathlib.Logic.Function.Basic
import PropertyGraph.Proofs.Value.Preorder
import PropertyGraph.Run.Collect

/-!
Groups and reductions. A group has all members of one key in order, and groups come in the order of
their first members. Sums that stay integers are exact, and of values that are ordered the least and
the greatest one are found.
-/

namespace PropertyGraph

namespace Dictionary

variable {κ α : Type} [DecidableEq κ]

/-- A dictionary with a value for each of some keys. -/
def tabulate (f : κ → α) (keys : List κ) : Dictionary κ α := keys.map fun key => (key, f key)

theorem get?_tabulate (f : κ → α) (keys : List κ) (key : κ) :
    get? key (tabulate f keys) = if key ∈ keys then some (f key) else none := by
  induction keys with
  | nil => rfl
  | cons other rest ih =>
      change (if other = key then some (f other) else get? key (tabulate f rest)) = _
      by_cases same : other = key
      · subst same
        simp
      · rw [if_neg same, ih]
        simp [Ne.symm same]

theorem put_tabulate_new (f : κ → α) {keys : List κ} {key : κ} (new : key ∉ keys) (value : α) :
    put key value (tabulate f keys) = tabulate f keys ++ [(key, value)] := by
  induction keys with
  | nil => rfl
  | cons other rest ih =>
      have apart : other ≠ key := fun same => new (same ▸ List.mem_cons_self)
      change (if other = key then _ else (other, f other) :: put key value (tabulate f rest)) = _
      rw [if_neg apart, ih fun later => new (List.mem_cons_of_mem _ later)]
      rfl

theorem put_tabulate (f : κ → α) {keys : List κ} (distinct : keys.Nodup) {key : κ}
    (known : key ∈ keys) (value : α) :
    put key value (tabulate f keys) = tabulate (Function.update f key value) keys := by
  induction keys with
  | nil => cases known
  | cons other rest ih =>
      obtain ⟨first, others⟩ := List.nodup_cons.mp distinct
      change (if other = key then (other, value) :: tabulate f rest
        else (other, f other) :: put key value (tabulate f rest)) = _
      by_cases same : other = key
      · subst same
        have unchanged : tabulate (Function.update f other value) rest = tabulate f rest := by
          refine List.map_congr_left fun k member => ?_
          have apart : k ≠ other := fun same => first (same ▸ member)
          rw [Function.update_of_ne apart]
        rw [if_pos rfl, ← unchanged]
        simp [tabulate]
      · have later : key ∈ rest := (List.mem_cons.mp known).resolve_left (Ne.symm same)
        rw [if_neg same, ih others later]
        simp [tabulate, same]

end Dictionary

section EraseDups

variable {α β : Type} [BEq α] [LawfulBEq α] [BEq β] [LawfulBEq β]

theorem eraseDups_snoc (keys : List α) (key : α) [Decidable (key ∈ keys)] :
    (keys ++ [key]).eraseDups =
      if key ∈ keys then keys.eraseDups else keys.eraseDups ++ [key] := by
  rw [List.eraseDups_append]
  by_cases known : key ∈ keys <;> simp [List.removeAll, List.eraseDups_cons, known]

theorem eraseDups_nodup (keys : List α) : keys.eraseDups.Nodup := by
  classical
  induction keys using List.reverseRecOn with
  | nil => exact .nil
  | append_singleton keys key ih =>
      rw [eraseDups_snoc]
      split
      · exact ih
      · next new =>
          refine List.nodup_append.mpr ⟨ih, List.pairwise_singleton _ key, ?_⟩
          rintro other known _ single rfl
          exact new (List.mem_eraseDups.mp (List.mem_singleton.mp single ▸ known))

theorem eraseDups_of_nodup {keys : List α} (distinct : keys.Nodup) : keys.eraseDups = keys := by
  classical
  induction keys using List.reverseRecOn with
  | nil => rfl
  | append_singleton keys key ih =>
      obtain ⟨others, _, apart⟩ := List.nodup_append.mp distinct
      have new : key ∉ keys := fun known => apart key known key List.mem_cons_self rfl
      rw [eraseDups_snoc, if_neg new, ih others]

theorem eraseDups_map {f : α → β} {keys : List α}
    (apart : ∀ x ∈ keys, ∀ y ∈ keys, f x = f y → x = y) :
    (keys.map f).eraseDups = keys.eraseDups.map f := by
  classical
  -- From the end, for a key is dropped because of those before it.
  induction keys using List.reverseRecOn with
  | nil => rfl
  | append_singleton keys key ih =>
      have among {x : α} (known : x ∈ keys) : x ∈ keys ++ [key] := List.mem_append_left _ known
      have last : key ∈ keys ++ [key] := List.mem_append_right _ List.mem_cons_self
      have listed : f key ∈ keys.map f ↔ key ∈ keys := by
        refine ⟨fun known => ?_, List.mem_map_of_mem⟩
        obtain ⟨x, member, same⟩ := List.mem_map.mp known
        exact apart x (among member) key last same ▸ member
      have before := ih fun x member y other => apart x (among member) y (among other)
      rw [List.map_append, List.map_singleton, eraseDups_snoc, eraseDups_snoc, before]
      by_cases known : key ∈ keys
      · rw [if_pos known, if_pos (listed.mpr known)]
      · rw [if_neg known, if_neg (mt listed.mp known), List.map_append, List.map_singleton]

end EraseDups

namespace Application

def membersOf (entries : List (Value × Traverser)) (key : Value) : Stream :=
  (entries.filter fun entry => entry.1 = key).map (·.2)

/-- Each distinct key has one group, which holds all members of that key in order. -/
theorem groups_eq (entries : List (Value × Traverser)) :
    entries.foldl intoGroup [] =
      Dictionary.tabulate (membersOf entries) (entries.map (·.1)).eraseDups := by
  induction entries using List.reverseRecOn with
  | nil => rfl
  | append_singleton entries entry ih =>
      obtain ⟨key, t⟩ := entry
      have members : membersOf (entries ++ [(key, t)]) =
          Function.update (membersOf entries) key (membersOf entries key ++ [t]) := by
        funext other
        by_cases same : other = key
        · subst same
          simp [membersOf]
        · rw [Function.update_of_ne same]
          simp [membersOf, Ne.symm same]
      rw [List.foldl_append, List.foldl_cons, List.foldl_nil, ih, intoGroup,
        Dictionary.get?_tabulate, List.map_append, List.map_singleton, eraseDups_snoc]
      by_cases known : key ∈ entries.map (·.1)
      · have listed : key ∈ (entries.map (·.1)).eraseDups := List.mem_eraseDups.mpr known
        rw [if_pos listed, if_pos known, Dictionary.put_tabulate _ (eraseDups_nodup _) listed,
          members]
        rfl
      · have unlisted : key ∉ (entries.map (·.1)).eraseDups := fun member =>
          known (List.mem_eraseDups.mp member)
        have others : Dictionary.tabulate (membersOf (entries ++ [(key, t)]))
            (entries.map (·.1)).eraseDups =
              Dictionary.tabulate (membersOf entries) (entries.map (·.1)).eraseDups := by
          refine List.map_congr_left fun other member => ?_
          have apart : other ≠ key := fun same => unlisted (same ▸ member)
          rw [members, Function.update_of_ne apart]
        have alone : membersOf (entries ++ [(key, t)]) key = [t] := by
          have none_ : membersOf entries key = [] := by
            rw [membersOf, List.map_eq_nil_iff, List.filter_eq_nil_iff]
            intro entry member same
            exact known (List.mem_map.mpr ⟨entry, member, of_decide_eq_true same⟩)
          rw [members, Function.update_self, none_]
          rfl
        rw [if_neg unlisted, if_neg known, Dictionary.put_tabulate_new _ unlisted,
          ← others]
        simp [Dictionary.tabulate, alone]

end Application

theorem int64?_toInt {i : Int} {n : Int64} (fits : int64? i = some n) : n.toInt = i := by
  unfold int64? at fits
  split at fits
  · next within =>
      cases fits
      exact Int64.toInt_ofInt_of_le within.1 within.2
  · cases fits

namespace Reduce

theorem integerSum?_exact {values : List Value} {start total : Int64}
    (found : integerSum? start values = some total) : ∃ ints : List Int64,
      values = ints.map .int ∧ total.toInt = start.toInt + (ints.map Int64.toInt).sum := by
  induction values generalizing start with
  | nil =>
      cases found
      exact ⟨[], rfl, (Int.add_zero _).symm⟩
  | cons v rest ih =>
      cases v with
      | int i =>
          rw [integerSum?] at found
          split at found
          · next next fits =>
              obtain ⟨ints, rfl, exact_⟩ := ih found
              refine ⟨i :: ints, rfl, ?_⟩
              rw [exact_, int64?_toInt fits, List.map_cons, List.sum_cons, Int.add_assoc]
          · cases found
      | _ => cases found

theorem sum_exact {values : List Value} {total : Int64} (made : sum values = .int total) :
    ∃ ints : List Int64,
      values = ints.map .int ∧ total.toInt = (ints.map Int64.toInt).sum := by
  unfold sum at made
  split at made
  · next found =>
      cases made
      obtain ⟨ints, same, exact_⟩ := integerSum?_exact found
      exact ⟨ints, same, exact_.trans (Int.zero_add _)⟩
  · cases made

/-- What is kept on the way is one of the values so far, and it is related to each of them. -/
theorem foldl_keeps {P : Value → Prop} {R : Value → Value → Prop} {keep : Value → Value → Value}
    (self : ∀ v, P v → R v v) (trans : ∀ u v w, P u → P v → P w → R u v → R v w → R u w)
    (chooses : ∀ kept v, P kept → P v →
      keep kept v = kept ∧ R kept v ∨ keep kept v = v ∧ R v kept)
    {first : Value} {rest : List Value} (all : ∀ v ∈ first :: rest, P v) :
    rest.foldl keep first ∈ first :: rest ∧
      ∀ v ∈ first :: rest, R (rest.foldl keep first) v := by
  -- Whatever was kept so far is the first of a shorter list, so the first one varies.
  induction rest generalizing first with
  | nil =>
      refine ⟨List.mem_cons_self, fun v single => ?_⟩
      exact List.mem_singleton.mp single ▸ self first (all first List.mem_cons_self)
  | cons next rest ih =>
      have holds : P first := all first List.mem_cons_self
      have follows : P next := all next (List.mem_cons_of_mem _ List.mem_cons_self)
      have later : ∀ v ∈ rest, P v := fun v member =>
        all v (List.mem_cons_of_mem _ (List.mem_cons_of_mem _ member))
      rw [List.foldl_cons]
      obtain ⟨kept, related⟩ | ⟨kept, related⟩ := chooses first next holds follows
      · rw [kept]
        obtain ⟨member, others⟩ := ih (List.forall_mem_cons.mpr ⟨holds, later⟩)
        have best := List.forall_mem_cons.mpr ⟨holds, later⟩ _ member
        have reached := trans _ _ _ best holds follows (others _ List.mem_cons_self) related
        obtain ⟨here, others⟩ := List.forall_mem_cons.mp others
        exact ⟨List.cons_subset_cons _ (List.subset_cons_self _ _) member,
          List.forall_mem_cons.mpr ⟨here, List.forall_mem_cons.mpr ⟨reached, others⟩⟩⟩
      · rw [kept]
        obtain ⟨member, others⟩ := ih (List.forall_mem_cons.mpr ⟨follows, later⟩)
        have best := List.forall_mem_cons.mpr ⟨follows, later⟩ _ member
        have reached := trans _ _ _ best follows holds (others _ List.mem_cons_self) related
        exact ⟨List.mem_cons_of_mem _ member, List.forall_mem_cons.mpr ⟨reached, others⟩⟩

variable {values : List Value} {best : Value}

theorem least?_isLeast (ordered : Value.Ordered values) (found : least? values = some best) :
    best ∈ values ∧ ∀ v ∈ values, (best.order v).isLE := by
  cases values with
  | nil => cases found
  | cons first rest =>
      cases found
      refine foldl_keeps (P := (· ∈ first :: rest)) (R := fun v w => (v.order w).isLE)
        (fun v _ => by rw [Value.order_self v]; rfl)
        (fun u v w here there beyond => ordered u here v there w beyond)
        (fun kept v _ _ => ?_) fun _ member => member
      cases below : v.order kept with
      | lt => exact .inr ⟨rfl, rfl⟩
      | _ => exact .inl ⟨rfl, Value.isLE_of_not_lt (by rw [below]; nofun)⟩

theorem greatest?_isGreatest (ordered : Value.Ordered values)
    (found : greatest? values = some best) :
    best ∈ values ∧ ∀ v ∈ values, (v.order best).isLE := by
  cases values with
  | nil => cases found
  | cons first rest =>
      cases found
      refine foldl_keeps (P := (· ∈ first :: rest)) (R := fun v w => (w.order v).isLE)
        (fun v _ => by rw [Value.order_self v]; rfl)
        (fun u v w here there beyond above below => ordered w beyond v there u here below above)
        (fun kept v _ _ => ?_) fun _ member => member
      cases below : v.order kept with
      | lt => exact .inl ⟨rfl, rfl⟩
      | _ => exact .inr ⟨rfl, Value.isLE_of_not_lt (by rw [below]; nofun)⟩

end Reduce

end PropertyGraph
