import Mathlib.Data.List.Perm.Subperm
import PropertyGraph.Proofs.Cypher.Matches

/-!
Paths that visit no vertex twice, over edges of some types in one direction or in both. They are
listed level by level: those with one more edge extend those before.
-/

namespace PropertyGraph

variable {g : Graph} {d : Direction} {types : List String}

/-- The hops go over edges of one of the types. -/
def Chain.Follows (g : Graph) (d : Direction) (types : List String) :
    Vertex → List (Edge × Vertex) → Prop
  | _, [] => True
  | v, (e, w) :: hops =>
      (e ∈ g.edges ∧ ofTypes types e = true) ∧ w ∈ g.vertices ∧ d.Leads e v w ∧
        Follows g d types w hops

theorem Chain.final_append (v : Vertex) (hops : List (Edge × Vertex)) (e : Edge) (w : Vertex) :
    Chain.final v (hops ++ [(e, w)]) = w := by
  induction hops generalizing v with
  | nil => rfl
  | cons hop rest ih => exact ih hop.2

theorem Chain.follows_append {v : Vertex} {hops : List (Edge × Vertex)} {e : Edge} {w : Vertex} :
    Chain.Follows g d types v (hops ++ [(e, w)]) ↔ Chain.Follows g d types v hops ∧
      (e ∈ g.edges ∧ ofTypes types e = true) ∧ w ∈ g.vertices ∧
        d.Leads e (Chain.final v hops) w := by
  induction hops generalizing v with
  | nil => simp [Chain.Follows, Chain.final]
  | cons hop rest ih =>
      obtain ⟨f, u⟩ := hop
      simp only [List.cons_append, Chain.Follows, Chain.final, ih, and_assoc]

namespace PathMatch

variable {m : PathMatch}

def final (m : PathMatch) : Vertex := Chain.final m.start m.hops

def vertices (m : PathMatch) : List Vertex := m.start :: m.hops.map (·.2)

def extended (m : PathMatch) (e : Edge) (w : Vertex) : PathMatch := ⟨m.start, m.hops ++ [(e, w)]⟩

theorem vertices_extended (m : PathMatch) (e : Edge) (w : Vertex) :
    (m.extended e w).vertices = m.vertices ++ [w] := by
  simp [vertices, extended]

theorem final_extended (m : PathMatch) (e : Edge) (w : Vertex) : (m.extended e w).final = w :=
  Chain.final_append m.start m.hops e w

theorem extended_inj {m m' : PathMatch} {e e' : Edge} {w w' : Vertex}
    (same : m.extended e w = m'.extended e' w') : m = m' ∧ e = e' ∧ w = w' := by
  obtain ⟨start, hops⟩ := PathMatch.mk.inj same
  obtain ⟨before, last⟩ := List.append_inj' hops rfl
  obtain ⟨edge, vertex⟩ := Prod.mk.inj (List.cons.inj last).1
  refine ⟨?_, edge, vertex⟩
  cases m
  cases m'
  exact congrArg₂ PathMatch.mk start before

theorem exists_extended {k : Nat} (long : m.hops.length = k + 1) :
    ∃ (before : PathMatch) (e : Edge) (w : Vertex),
      m = before.extended e w ∧ before.hops.length = k := by
  obtain ⟨start, hops⟩ := m
  rcases List.eq_nil_or_concat hops with rfl | ⟨before, ⟨e, w⟩, rfl⟩
  · cases long
  · refine ⟨⟨start, before⟩, e, w, ?_, by simpa using long⟩
    simp [extended]

end PathMatch

/-- A path along edges of one of the types on which no vertex comes twice. -/
structure IsSimplePath (g : Graph) (d : Direction) (types : List String) (m : PathMatch) : Prop where
  start : m.start ∈ g.vertices
  follows : Chain.Follows g d types m.start m.hops
  simple : m.vertices.Nodup

namespace IsSimplePath

variable {m : PathMatch}

theorem extended_iff {e : Edge} {w : Vertex} :
    IsSimplePath g d types (m.extended e w) ↔ IsSimplePath g d types m ∧
      (e ∈ g.edges ∧ ofTypes types e = true) ∧ w ∈ g.vertices ∧ d.Leads e m.final w ∧
        w ∉ m.vertices := by
  have apart : (m.extended e w).vertices.Nodup ↔ m.vertices.Nodup ∧ w ∉ m.vertices := by
    rw [PathMatch.vertices_extended, ← List.concat_eq_append, List.nodup_concat, and_comm]
  constructor
  · rintro ⟨start, follows, simple⟩
    obtain ⟨before, edge, vertex, leads⟩ := Chain.follows_append.mp follows
    obtain ⟨simpleBefore, fresh⟩ := apart.mp simple
    exact ⟨⟨start, before, simpleBefore⟩, edge, vertex, leads, fresh⟩
  · rintro ⟨⟨start, before, simpleBefore⟩, edge, vertex, leads, fresh⟩
    exact ⟨start, Chain.follows_append.mpr ⟨before, edge, vertex, leads⟩,
      apart.mpr ⟨simpleBefore, fresh⟩⟩

theorem of_vertex {v : Vertex} (stored : v ∈ g.vertices) : IsSimplePath g d types ⟨v, []⟩ :=
  ⟨stored, trivial, List.nodup_singleton v⟩

theorem stored (path : IsSimplePath g d types m) : ∀ v ∈ m.vertices, v ∈ g.vertices := by
  generalize length : m.hops.length = k
  induction k generalizing m with
  | zero =>
      intro v member
      have none_ : m.hops = [] := List.length_eq_zero_iff.mp length
      rw [PathMatch.vertices, none_] at member
      rw [List.mem_singleton.mp member]
      exact path.start
  | succ k ih =>
      obtain ⟨before, e, w, rfl, shorter⟩ := PathMatch.exists_extended length
      obtain ⟨pathBefore, _, vertex, _, _⟩ := extended_iff.mp path
      intro v member
      rw [PathMatch.vertices_extended] at member
      rcases List.mem_append.mp member with old | new
      · exact ih pathBefore shorter v old
      · rw [List.mem_singleton.mp new]
        exact vertex

theorem final_mem (m : PathMatch) : m.final ∈ m.vertices := by
  cases length : m.hops.length with
  | zero =>
      have none_ : m.hops = [] := List.length_eq_zero_iff.mp length
      rw [PathMatch.final, none_]
      exact List.mem_cons_self
  | succ k =>
      obtain ⟨before, e, w, rfl, _⟩ := PathMatch.exists_extended length
      rw [PathMatch.final_extended, PathMatch.vertices_extended]
      exact List.mem_append_right _ List.mem_cons_self

/-- A path is shorter than the number of vertices. -/
theorem length_lt (path : IsSimplePath g d types m) : m.hops.length < g.vertices.length := by
  have fits := (List.subperm_of_subset path.simple path.stored).length_le
  rw [PathMatch.vertices, List.length_cons, List.length_map] at fits
  exact fits

theorem fresh_iff (consistent : g.Consistent) (path : IsSimplePath g d types m) {w : Vertex}
    (vertex : w ∈ g.vertices) :
    (m.vertices.all fun v => v.id != w.id) = true ↔ w ∉ m.vertices := by
  rw [List.all_eq_true]
  constructor
  · intro different visited
    have other := different w visited
    rw [bne_self_eq_false] at other
    cases other
  · intro fresh v visited
    rw [bne_iff_ne]
    intro same
    rw [consistent.distinct (path.stored v visited) vertex same] at visited
    exact fresh visited

end IsSimplePath

/-- The paths that are one hop longer. -/
def PathMatch.nexts (g : Graph) (d : Direction) (types : List String) (m : PathMatch) :
    List PathMatch :=
  ((d.edgesAt g m.final.id).filter fun e =>
      ofTypes types e && m.vertices.all fun v => v.id != d.farEnd e m.final.id).flatMap fun e =>
    (g.withId (d.farEnd e m.final.id)).map fun w => m.extended e w

/-- All paths with so many hops. -/
def pathsOf (g : Graph) (d : Direction) (types : List String) : Nat → List PathMatch
  | 0 => g.vertices.map fun v => ⟨v, []⟩
  | k + 1 => (pathsOf g d types k).flatMap (PathMatch.nexts g d types)

theorem PathMatch.mem_nexts (consistent : g.Consistent) {m m' : PathMatch}
    (path : IsSimplePath g d types m) : m' ∈ m.nexts g d types ↔
      ∃ e w, m' = m.extended e w ∧ IsSimplePath g d types (m.extended e w) := by
  rw [nexts, List.mem_flatMap]
  constructor
  · rintro ⟨e, found, reached⟩
    obtain ⟨w, far, rfl⟩ := List.mem_map.mp reached
    obtain ⟨leaving, fits⟩ := List.mem_filter.mp found
    obtain ⟨stored, atEnd⟩ := List.mem_filter.mp far
    rw [Bool.and_eq_true, ← of_decide_eq_true atEnd, path.fresh_iff consistent stored] at fits
    have inGraph := ((Direction.mem_edgesAt consistent).mp leaving).1
    have leads := (Direction.leads_iff consistent (w := w) inGraph).mpr
      ⟨leaving, (of_decide_eq_true atEnd).symm⟩
    exact ⟨e, w, rfl, IsSimplePath.extended_iff.mpr
      ⟨path, ⟨inGraph, fits.1⟩, stored, leads, fits.2⟩⟩
  · rintro ⟨e, w, rfl, longer⟩
    obtain ⟨_, ⟨inGraph, typed⟩, stored, leads, fresh⟩ := IsSimplePath.extended_iff.mp longer
    obtain ⟨leaving, atEnd⟩ := (Direction.leads_iff consistent inGraph).mp leads
    refine ⟨e, List.mem_filter.mpr ⟨leaving, ?_⟩, List.mem_map.mpr ⟨w, ?_, rfl⟩⟩
    · rw [Bool.and_eq_true, atEnd, path.fresh_iff consistent stored]
      exact ⟨typed, fresh⟩
    · exact List.mem_filter.mpr ⟨stored, decide_eq_true atEnd.symm⟩

theorem mem_pathsOf (consistent : g.Consistent) {k : Nat} {m : PathMatch} :
    m ∈ pathsOf g d types k ↔ IsSimplePath g d types m ∧ m.hops.length = k := by
  induction k generalizing m with
  | zero =>
      rw [pathsOf, List.mem_map]
      constructor
      · rintro ⟨v, stored, rfl⟩
        exact ⟨.of_vertex stored, rfl⟩
      · rintro ⟨path, short⟩
        obtain ⟨start, hops⟩ := m
        cases List.length_eq_zero_iff.mp short
        exact ⟨start, path.start, rfl⟩
  | succ k ih =>
      rw [pathsOf, List.mem_flatMap]
      constructor
      · rintro ⟨before, found, next⟩
        obtain ⟨path, length⟩ := ih.mp found
        obtain ⟨e, w, rfl, longer⟩ := (PathMatch.mem_nexts consistent path).mp next
        exact ⟨longer, by simp [PathMatch.extended, length]⟩
      · rintro ⟨path, length⟩
        obtain ⟨before, e, w, rfl, shorter⟩ := PathMatch.exists_extended length
        have pathBefore := (IsSimplePath.extended_iff.mp path).1
        exact ⟨before, ih.mpr ⟨pathBefore, shorter⟩,
          (PathMatch.mem_nexts consistent pathBefore).mpr ⟨e, w, rfl, path⟩⟩

theorem pathsOf_eq_nil (consistent : g.Consistent) {k : Nat} (long : g.vertices.length ≤ k) :
    pathsOf g d types k = [] := by
  rw [List.eq_nil_iff_forall_not_mem]
  intro m found
  obtain ⟨path, length⟩ := (mem_pathsOf consistent).mp found
  have short := path.length_lt
  omega

/-- Edges that do not lead back at once are listed once, in both directions too. -/
theorem Direction.edgesAt_onward_nodup (consistent : g.Consistent) (d : Direction)
    (id : VertexId) : ((d.edgesAt g id).filter fun e => d.farEnd e id != id).Nodup := by
  cases d with
  | outgoing => exact (edgesAt_nodup consistent (d := .outgoing) nofun id).filter _
  | incoming => exact (edgesAt_nodup consistent (d := .incoming) nofun id).filter _
  | both =>
      have leaving := edgesAt_nodup consistent (d := .outgoing) nofun id
      have entering := edgesAt_nodup consistent (d := .incoming) nofun id
      have once : (g.edgesFrom id).Nodup ∧ (g.edgesInto id).Nodup := ⟨leaving, entering⟩
      rw [edgesAt, List.filter_append]
      refine (once.1.filter _).append (once.2.filter _) fun e first second => ?_
      obtain ⟨out, onward⟩ := List.mem_filter.mp first
      obtain ⟨into, _⟩ := List.mem_filter.mp second
      rw [consistent.indexed.edgesFrom_eq] at out
      rw [consistent.indexed.edgesInto_eq] at into
      have source : e.source = id := by simpa using (List.mem_filter.mp out).2
      have target : e.target = id := by simpa using (List.mem_filter.mp into).2
      simp [farEnd, source, target] at onward

theorem PathMatch.nexts_nodup (consistent : g.Consistent) (m : PathMatch) :
    (m.nexts g d types).Nodup := by
  have onward : ∀ e, (ofTypes types e && m.vertices.all fun v => v.id != d.farEnd e m.final.id) =
      true → (d.farEnd e m.final.id != m.final.id) = true := by
    intro e fits
    rw [Bool.and_eq_true, List.all_eq_true] at fits
    rw [bne_comm]
    exact fits.2 m.final (IsSimplePath.final_mem m)
  refine nodup_extensions ?_ ?_ ?_
  · refine (Direction.edgesAt_onward_nodup consistent d m.final.id).sublist ?_
    exact List.monotone_filter_right _ onward
  · intro e _
    exact consistent.ids_nodup.of_map.filter _
  · intro e w e' w' same
    exact (extended_inj same).2

theorem pathsOf_nodup (consistent : g.Consistent) (k : Nat) : (pathsOf g d types k).Nodup := by
  induction k with
  | zero =>
      refine consistent.ids_nodup.of_map.map fun v w same => ?_
      exact (PathMatch.mk.inj same).1
  | succ k ih =>
      rw [pathsOf, List.nodup_flatMap]
      refine ⟨fun m _ => PathMatch.nexts_nodup consistent m, ih.imp_of_mem ?_⟩
      intro m m' found found' different both first second
      have path := ((mem_pathsOf consistent).mp found).1
      have path' := ((mem_pathsOf consistent).mp found').1
      obtain ⟨e, w, rfl, _⟩ := (PathMatch.mem_nexts consistent path).mp first
      obtain ⟨e', w', same, _⟩ := (PathMatch.mem_nexts consistent path').mp second
      exact different (PathMatch.extended_inj same).1

/-- The number of hops is in the range. -/
def PathLength.Allows (range : PathLength) (k : Nat) : Prop :=
  range.min ≤ k ∧ ∀ most ∈ range.max, k ≤ most

instance (range : PathLength) (k : Nat) : Decidable (range.Allows k) :=
  inferInstanceAs (Decidable (_ ∧ ∀ most ∈ range.max, k ≤ most))

/-- The paths of so many levels, from a level on, whose lengths are in the range. -/
def pathsWithin (g : Graph) (d : Direction) (types : List String) (range : PathLength) :
    Nat → Nat → List PathMatch
  | 0, _ => []
  | n + 1, k =>
      (if range.Allows k then pathsOf g d types k else []) ++ pathsWithin g d types range n (k + 1)

variable {range : PathLength}

theorem mem_pathsWithin (consistent : g.Consistent) {n k : Nat} {m : PathMatch} :
    m ∈ pathsWithin g d types range n k ↔ IsSimplePath g d types m ∧
      range.Allows m.hops.length ∧ k ≤ m.hops.length ∧ m.hops.length < k + n := by
  induction n generalizing k with
  | zero =>
      simp only [pathsWithin, List.not_mem_nil, false_iff]
      rintro ⟨_, _, least, most⟩
      omega
  | succ n ih =>
      have here : m ∈ (if range.Allows k then pathsOf g d types k else []) ↔
          IsSimplePath g d types m ∧ range.Allows m.hops.length ∧ m.hops.length = k := by
        by_cases allowed : range.Allows k
        · rw [if_pos allowed, mem_pathsOf consistent]
          exact ⟨fun ⟨path, length⟩ => ⟨path, length ▸ allowed, length⟩,
            fun ⟨path, _, length⟩ => ⟨path, length⟩⟩
        · rw [if_neg allowed]
          refine ⟨nofun, ?_⟩
          rintro ⟨_, fits, length⟩
          exact absurd (length ▸ fits) allowed
      rw [pathsWithin, List.mem_append, here, ih]
      constructor
      · rintro (⟨path, fits, length⟩ | ⟨path, fits, least, most⟩)
        · exact ⟨path, fits, by omega, by omega⟩
        · exact ⟨path, fits, by omega, by omega⟩
      · rintro ⟨path, fits, least, most⟩
        by_cases length : m.hops.length = k
        · exact .inl ⟨path, fits, length⟩
        · exact .inr ⟨path, fits, by omega, by omega⟩

theorem pathsWithin_nodup (consistent : g.Consistent) (n k : Nat) :
    (pathsWithin g d types range n k).Nodup := by
  induction n generalizing k with
  | zero => exact List.nodup_nil
  | succ n ih =>
      have here : (if range.Allows k then pathsOf g d types k else []).Nodup := by
        split
        · exact pathsOf_nodup consistent k
        · exact List.nodup_nil
      refine here.append (ih (k + 1)) fun m first second => ?_
      have length : m.hops.length = k := by
        split at first
        · exact ((mem_pathsOf consistent).mp first).2
        · cases first
      have longer := ((mem_pathsWithin consistent).mp second).2.2.1
      omega

theorem pathsWithin_eq_nil (consistent : g.Consistent) {n k : Nat}
    (past : g.vertices.length ≤ k ∨ ∃ most ∈ range.max, most < k) :
    pathsWithin g d types range n k = [] := by
  rw [List.eq_nil_iff_forall_not_mem]
  intro m found
  obtain ⟨path, allowed, least, _⟩ := (mem_pathsWithin consistent).mp found
  rcases past with long | ⟨most, bound, below⟩
  · have short := path.length_lt
    omega
  · have fits := allowed.2 most bound
    omega

theorem pathsWithin_succ (consistent : g.Consistent) {n k : Nat}
    (enough : g.vertices.length ≤ k + n) :
    pathsWithin g d types range (n + 1) k = pathsWithin g d types range n k := by
  induction n generalizing k with
  | zero =>
      have nothing : pathsOf g d types k = [] := pathsOf_eq_nil consistent enough
      simp [pathsWithin, nothing]
  | succ n ih =>
      have later := ih (k := k + 1) (by omega)
      rw [pathsWithin, later, pathsWithin]

/-- All paths of a level or a later one whose lengths are in the range. -/
def pathsFrom (g : Graph) (d : Direction) (types : List String) (range : PathLength) (k : Nat) :
    List PathMatch :=
  pathsWithin g d types range g.vertices.length k

theorem pathsFrom_eq (consistent : g.Consistent) (k : Nat) :
    pathsFrom g d types range k =
      (if range.Allows k then pathsOf g d types k else []) ++
        pathsFrom g d types range (k + 1) := by
  have enough : g.vertices.length ≤ k + g.vertices.length := by omega
  rw [pathsFrom, ← pathsWithin_succ consistent enough, pathsWithin, pathsFrom]

theorem pathsFrom_last (consistent : g.Consistent) {k : Nat} (least : range.min ≤ k)
    (last : range.max = some k) : pathsFrom g d types range k = pathsOf g d types k := by
  have allows : range.Allows k := by
    refine ⟨least, fun most bound => ?_⟩
    rw [Option.mem_def, last] at bound
    exact Nat.le_of_eq (Option.some.inj bound)
  have past : pathsFrom g d types range (k + 1) = [] :=
    pathsWithin_eq_nil consistent (.inr ⟨k, last, Nat.lt_succ_self k⟩)
  rw [pathsFrom_eq consistent, if_pos allows, past, List.append_nil]

theorem pathsFrom_before (consistent : g.Consistent) {k : Nat}
    (before : ∀ most ∈ range.max, k ≤ most) :
    pathsFrom g d types range k =
      (if range.min ≤ k then pathsOf g d types k else []) ++
        pathsFrom g d types range (k + 1) := by
  have allows : range.Allows k ↔ range.min ≤ k :=
    ⟨fun allowed => allowed.1, fun least => ⟨least, before⟩⟩
  rw [pathsFrom_eq consistent, if_congr allows rfl rfl]

theorem pathsFrom_eq_nil {k : Nat} (nothing : pathsOf g d types k = []) :
    pathsFrom g d types range (k + 1) = [] := by
  have none_ (n : Nat) : pathsWithin g d types range n (k + 1) = [] := by
    induction n generalizing k with
    | zero => rfl
    | succ n ih =>
        have next : pathsOf g d types (k + 1) = [] := by rw [pathsOf, nothing]; rfl
        rw [pathsWithin, next, ite_self, ih next]
        rfl
  exact none_ _

end PropertyGraph
