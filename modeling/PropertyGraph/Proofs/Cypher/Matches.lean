import PropertyGraph.Cypher.Query
import PropertyGraph.Proofs.Run.Expansion

/-!
Matches of patterns, declared: an element for each place of a pattern, each of them accepted where it
stands, and one element for each name. Beside it a search that lists all matches, each once. Nothing
here knows of steps or traversals.
-/

namespace PropertyGraph

/-- What the places of a pattern are matched with. -/
structure PathMatch where
  start : Vertex
  hops : List (Edge × Vertex)

/-- A property is there and equal to the literal that is asked for. -/
def Expression.holdsAt (properties : Properties) (entry : String × Expression) : Bool :=
  match entry.2.literal?, Dictionary.get? entry.1 properties with
  | some v, some value => (Predicate.eq v).test value
  | _, _ => false

def NodePattern.accepts (n : NodePattern) (v : Vertex) : Bool :=
  n.labels.all (v.label == ·) && n.properties.all (Expression.holdsAt v.properties)

def RelationshipPattern.accepts (r : RelationshipPattern) (e : Edge) : Bool :=
  ofTypes r.types e && r.properties.all (Expression.holdsAt e.properties)

/-- An edge leads from one vertex to another. -/
def Direction.Leads (d : Direction) (e : Edge) (v w : Vertex) : Prop :=
  match d with
  | .outgoing => e.source = v.id ∧ e.target = w.id
  | .incoming => e.target = v.id ∧ e.source = w.id
  | .both => (e.source = v.id ∧ e.target = w.id) ∨ (e.target = v.id ∧ e.source = w.id)

/-- Each name with what stands at it, place by place. -/
abbrev Naming := List (String × Value)

def Naming.of (name : Option String) (v : Value) : Naming := name.toList.map fun name => (name, v)

/-- A name stands for one element. -/
def Naming.Coherent (named : Naming) : Prop :=
  ∀ name v w, (name, v) ∈ named → (name, w) ∈ named → v = w

abbrev Chain := List (RelationshipPattern × NodePattern)

namespace Chain

def final : Vertex → List (Edge × Vertex) → Vertex
  | v, [] => v
  | _, (_, w) :: hops => final w hops

def Matches (g : Graph) : Vertex → Chain → List (Edge × Vertex) → Prop
  | _, [], [] => True
  | v, (r, n) :: chain, (e, w) :: hops =>
      (e ∈ g.edges ∧ r.accepts e = true) ∧ (w ∈ g.vertices ∧ n.accepts w = true) ∧
        r.direction.Leads e v w ∧ Matches g w chain hops
  | _, _, _ => False

def naming : Chain → List (Edge × Vertex) → Naming
  | (r, n) :: chain, (e, w) :: hops =>
      Naming.of r.name (.edge e.ref) ++ Naming.of n.name (.vertex w.ref) ++ naming chain hops
  | _, _ => []

end Chain

namespace PathPattern

def Matches (g : Graph) (p : PathPattern) (m : PathMatch) : Prop :=
  (m.start ∈ g.vertices ∧ p.start.accepts m.start = true) ∧ Chain.Matches g m.start p.chain m.hops

def naming (p : PathPattern) (m : PathMatch) : Naming :=
  Naming.of p.start.name (.vertex m.start.ref) ++ Chain.naming p.chain m.hops

def namings : List PathPattern → List PathMatch → Naming
  | p :: patterns, m :: ms => p.naming m ++ namings patterns ms
  | _, _ => []

/-- Each pattern is matched, and all of them agree on the names. -/
def AllMatch (g : Graph) (patterns : List PathPattern) (ms : List PathMatch) : Prop :=
  List.Forall₂ (fun (p : PathPattern) m => p.Matches g m) patterns ms ∧
    (namings patterns ms).Coherent

end PathPattern

theorem flatMap_filter {α β : Type} (p : α → Bool) (f : α → List β) (found : List α) :
    (found.flatMap fun a => if p a then f a else []) = (found.filter p).flatMap f := by
  induction found with
  | nil => rfl
  | cons a rest ih => by_cases passed : p a <;> simp [passed, ih]

namespace Naming

/-- The name, if any, stands for nothing else yet. -/
def allows (named : Naming) (name : Option String) (v : Value) : Bool :=
  name.all fun name => named.all fun entry => entry.1 != name || entry.2 == v

theorem allows_iff {named : Naming} {name : Option String} {v : Value} :
    named.allows name v = true ↔ ∀ x ∈ name, ∀ w, (x, w) ∈ named → w = v := by
  cases name with
  | none => simp [allows]
  | some name =>
      simp only [allows, Option.all_some, List.all_eq_true, Option.mem_def, Option.some.injEq]
      constructor
      · rintro holds x rfl w member
        simpa using holds (name, w) member
      · rintro holds ⟨x, w⟩ member
        by_cases same : x = name
        · simp [same, holds name rfl w (same ▸ member)]
        · simp [same]

theorem mem_of {name : Option String} {v w : Value} {x : String} :
    (x, w) ∈ Naming.of name v ↔ name = some x ∧ w = v := by
  cases name with
  | none => simp [Naming.of]
  | some name =>
      simp only [Naming.of, Option.toList_some, List.map_cons, List.map_nil, List.mem_singleton,
        Prod.mk.injEq, Option.some.injEq]
      constructor
      · rintro ⟨rfl, rfl⟩
        exact ⟨rfl, rfl⟩
      · rintro ⟨rfl, rfl⟩
        exact ⟨rfl, rfl⟩

theorem Coherent.nil : Naming.Coherent [] := by
  intro name v w member
  cases member

theorem Coherent.left {named more : Naming} (coherent : (named ++ more).Coherent) :
    named.Coherent := fun name v w first second =>
  coherent name v w (List.mem_append_left _ first) (List.mem_append_left _ second)

/-- One more place agrees with those before it as far as its name goes. -/
theorem coherent_append_of {named : Naming} {name : Option String} {v : Value} :
    (named ++ Naming.of name v).Coherent ↔ named.Coherent ∧ named.allows name v = true := by
  rw [allows_iff]
  constructor
  · intro coherent
    refine ⟨coherent.left, fun x known w member => ?_⟩
    have new : (x, v) ∈ Naming.of name v := mem_of.mpr ⟨known, rfl⟩
    exact coherent x w v (List.mem_append_left _ member) (List.mem_append_right _ new)
  · rintro ⟨coherent, allowed⟩ x u w first second
    rcases List.mem_append.mp first with old | new <;>
      rcases List.mem_append.mp second with old' | new'
    · exact coherent x u w old old'
    · obtain ⟨known, rfl⟩ := mem_of.mp new'
      exact allowed x known u old
    · obtain ⟨known, rfl⟩ := mem_of.mp new
      exact (allowed x known w old').symm
    · obtain ⟨_, rfl⟩ := mem_of.mp new
      obtain ⟨_, rfl⟩ := mem_of.mp new'
      rfl

end Naming

namespace Direction

/-- The far end of an edge that leaves a vertex. -/
def farEnd (d : Direction) (e : Edge) (id : VertexId) : VertexId :=
  match d with
  | .outgoing => e.target
  | .incoming => e.source
  | .both => if id = e.source then e.target else e.source

theorem mem_edgesAt {g : Graph} (consistent : g.Consistent) {d : Direction} {e : Edge}
    {id : VertexId} : e ∈ d.edgesAt g id ↔ e ∈ g.edges ∧
      match d with
      | .outgoing => e.source = id
      | .incoming => e.target = id
      | .both => e.source = id ∨ e.target = id := by
  cases d with
  | outgoing => simp [edgesAt, consistent.indexed.edgesFrom_eq]
  | incoming => simp [edgesAt, consistent.indexed.edgesInto_eq]
  | both =>
      simp [edgesAt, consistent.indexed.edgesFrom_eq, consistent.indexed.edgesInto_eq, and_or_left]

theorem leads_iff {g : Graph} (consistent : g.Consistent) {d : Direction} {e : Edge}
    {v w : Vertex} (stored : e ∈ g.edges) :
    d.Leads e v w ↔ e ∈ d.edgesAt g v.id ∧ d.farEnd e v.id = w.id := by
  rw [mem_edgesAt consistent]
  cases d with
  | outgoing => simp [Leads, farEnd, stored]
  | incoming => simp [Leads, farEnd, stored]
  | both =>
      simp only [Leads, farEnd, stored, true_and]
      by_cases same : v.id = e.source
      · rw [if_pos same]
        constructor
        · rintro (⟨_, target⟩ | ⟨target, source⟩)
          · exact ⟨.inl same.symm, target⟩
          · exact ⟨.inl same.symm, target.trans (same.trans source)⟩
        · rintro ⟨_, target⟩
          exact .inl ⟨same.symm, target⟩
      · rw [if_neg same]
        constructor
        · rintro (⟨source, _⟩ | ⟨target, source⟩)
          · exact absurd source.symm same
          · exact ⟨.inr target, source⟩
        · rintro ⟨source | target, far⟩
          · exact absurd source.symm same
          · exact .inr ⟨target, far⟩

theorem farEnd_stored {g : Graph} (consistent : g.Consistent) (d : Direction) {e : Edge}
    (stored : e ∈ g.edges) (id : VertexId) : ∃ w ∈ g.vertices, w.id = d.farEnd e id := by
  obtain ⟨source, target⟩ := consistent.joins e stored
  cases d with
  | outgoing => exact target
  | incoming => exact source
  | both =>
      unfold farEnd
      dsimp only
      split_ifs
      · exact target
      · exact source

end Direction

namespace Graph

def withId (g : Graph) (id : VertexId) : List Vertex := g.vertices.filter fun v => v.id = id

theorem Consistent.withId_eq {g : Graph} (consistent : g.Consistent) {v : Vertex}
    (member : v ∈ g.vertices) : g.withId v.id = [v] := by
  have only : ∀ w ∈ g.withId v.id, w = v := by
    intro w found
    obtain ⟨stored, same⟩ := List.mem_filter.mp found
    exact consistent.distinct stored member (by simpa using same)
  have nodup : (g.withId v.id).Nodup := consistent.ids_nodup.of_map.filter _
  have here : v ∈ g.withId v.id := List.mem_filter.mpr ⟨member, decide_eq_true rfl⟩
  cases found : g.withId v.id with
  | nil => simp [found] at here
  | cons w rest =>
      rw [found] at only nodup
      have none_left : rest = [] := by
        rw [List.eq_nil_iff_forall_not_mem]
        intro u later
        have same : u = w := (only u (by simp [later])).trans (only w (by simp)).symm
        exact (List.nodup_cons.mp nodup).1 (same ▸ later)
      rw [none_left, only w (by simp)]

end Graph

/-- What can stand at the first place of a pattern. -/
def PathPattern.starts (g : Graph) (named : Naming) (n : NodePattern) : List Vertex :=
  g.vertices.filter fun v => n.accepts v && named.allows n.name (.vertex v.ref)

namespace Chain

/-- Edges from a vertex, each with its far end, that a relationship and its node accept. -/
def hopsFrom (g : Graph) (named : Naming) (v : Vertex) (r : RelationshipPattern)
    (n : NodePattern) : List (Edge × Vertex) :=
  ((r.direction.edgesAt g v.id).filter fun e =>
      r.accepts e && named.allows r.name (.edge e.ref)).flatMap fun e =>
    ((g.withId (r.direction.farEnd e v.id)).filter fun w =>
      n.accepts w && (named ++ Naming.of r.name (.edge e.ref)).allows n.name
        (.vertex w.ref)).map fun w => (e, w)

def search (g : Graph) : Naming → Vertex → Chain → List (List (Edge × Vertex))
  | _, _, [] => [[]]
  | named, v, (r, n) :: chain =>
      (hopsFrom g named v r n).flatMap fun hop =>
        (search g (named ++ Naming.of r.name (.edge hop.1.ref) ++
          Naming.of n.name (.vertex hop.2.ref)) hop.2 chain).map (hop :: ·)

end Chain

namespace PathPattern

def search (g : Graph) (named : Naming) (p : PathPattern) : List PathMatch :=
  (starts g named p.start).flatMap fun v =>
    (Chain.search g (named ++ Naming.of p.start.name (.vertex v.ref)) v p.chain).map
      (PathMatch.mk v)

def searchAll (g : Graph) : Naming → List PathPattern → List (List PathMatch)
  | _, [] => [[]]
  | named, p :: patterns =>
      (p.search g named).flatMap fun m => (searchAll g (named ++ p.naming m) patterns).map (m :: ·)

end PathPattern

section

variable {g : Graph} {named : Naming}

theorem Chain.mem_hopsFrom (consistent : g.Consistent) {v : Vertex} {r : RelationshipPattern}
    {n : NodePattern} {e : Edge} {w : Vertex} :
    (e, w) ∈ hopsFrom g named v r n ↔
      ((e ∈ g.edges ∧ r.accepts e = true) ∧ (w ∈ g.vertices ∧ n.accepts w = true) ∧
        r.direction.Leads e v w) ∧
      named.allows r.name (.edge e.ref) = true ∧
      (named ++ Naming.of r.name (.edge e.ref)).allows n.name (.vertex w.ref) = true := by
  constructor
  · intro member
    obtain ⟨d, found, member⟩ := List.mem_flatMap.mp member
    obtain ⟨u, reached, same⟩ := List.mem_map.mp member
    cases same
    obtain ⟨leaving, accepted⟩ := List.mem_filter.mp found
    obtain ⟨far, fits⟩ := List.mem_filter.mp reached
    obtain ⟨stored, atEnd⟩ := List.mem_filter.mp far
    rw [Bool.and_eq_true] at accepted fits
    have inGraph := ((Direction.mem_edgesAt consistent).mp leaving).1
    have leads := (Direction.leads_iff consistent (v := v) (w := w) inGraph).mpr
      ⟨leaving, (of_decide_eq_true atEnd).symm⟩
    exact ⟨⟨⟨inGraph, accepted.1⟩, ⟨stored, fits.1⟩, leads⟩, accepted.2, fits.2⟩
  · rintro ⟨⟨⟨inGraph, accepted⟩, ⟨stored, fits⟩, leads⟩, allowed, allowedEnd⟩
    obtain ⟨leaving, atEnd⟩ := (Direction.leads_iff consistent inGraph).mp leads
    refine List.mem_flatMap.mpr ⟨e, List.mem_filter.mpr ⟨leaving, ?_⟩, ?_⟩
    · rw [Bool.and_eq_true]
      exact ⟨accepted, allowed⟩
    · refine List.mem_map.mpr ⟨w, List.mem_filter.mpr ⟨?_, ?_⟩, rfl⟩
      · exact List.mem_filter.mpr ⟨stored, decide_eq_true atEnd.symm⟩
      · rw [Bool.and_eq_true]
        exact ⟨fits, allowedEnd⟩

/-- The search of a chain finds what matches and agrees with the names before it. -/
theorem Chain.mem_search (consistent : g.Consistent) {chain : Chain} {v : Vertex}
    (coherent : named.Coherent) {hops : List (Edge × Vertex)} :
    hops ∈ Chain.search g named v chain ↔
      Chain.Matches g v chain hops ∧ (named ++ Chain.naming chain hops).Coherent := by
  induction chain generalizing named v hops with
  | nil =>
      cases hops with
      | nil => simp [Chain.search, Chain.Matches, Chain.naming, coherent]
      | cons hop rest => simp [Chain.search, Chain.Matches]
  | cons place chain ih =>
      obtain ⟨r, n⟩ := place
      rw [Chain.search, List.mem_flatMap]
      cases hops with
      | nil => simp [Chain.Matches]
      | cons hop rest =>
          obtain ⟨e, w⟩ := hop
          have joined : named ++ Chain.naming ((r, n) :: chain) ((e, w) :: rest) =
              named ++ Naming.of r.name (.edge e.ref) ++ Naming.of n.name (.vertex w.ref) ++
                Chain.naming chain rest := by
            simp [Chain.naming]
          rw [joined]
          constructor
          · rintro ⟨hop, found, member⟩
            obtain ⟨others, searched, same⟩ := List.mem_map.mp member
            cases same
            obtain ⟨⟨edge, vertex, leads⟩, allowed, allowedEnd⟩ := (mem_hopsFrom consistent).mp found
            have next := Naming.coherent_append_of.mpr
              ⟨Naming.coherent_append_of.mpr ⟨coherent, allowed⟩, allowedEnd⟩
            obtain ⟨matched, agreed⟩ := (ih next).mp searched
            exact ⟨⟨edge, vertex, leads, matched⟩, agreed⟩
          · rintro ⟨⟨edge, vertex, leads, matched⟩, agreed⟩
            have next := agreed.left
            obtain ⟨before, allowedEnd⟩ := Naming.coherent_append_of.mp next
            obtain ⟨_, allowed⟩ := Naming.coherent_append_of.mp before
            refine ⟨(e, w), (mem_hopsFrom consistent).mpr
              ⟨⟨edge, vertex, leads⟩, allowed, allowedEnd⟩, ?_⟩
            exact List.mem_map.mpr ⟨rest, (ih next).mpr ⟨matched, agreed⟩, rfl⟩

theorem PathPattern.mem_search (consistent : g.Consistent) {p : PathPattern}
    (coherent : named.Coherent) {m : PathMatch} :
    m ∈ p.search g named ↔ p.Matches g m ∧ (named ++ p.naming m).Coherent := by
  obtain ⟨v, hops⟩ := m
  have joined : named ++ p.naming ⟨v, hops⟩ =
      named ++ Naming.of p.start.name (.vertex v.ref) ++ Chain.naming p.chain hops := by
    simp [naming]
  rw [joined, search, List.mem_flatMap]
  constructor
  · rintro ⟨u, found, member⟩
    obtain ⟨others, searched, same⟩ := List.mem_map.mp member
    cases same
    obtain ⟨stored, fits⟩ := List.mem_filter.mp found
    rw [Bool.and_eq_true] at fits
    have next := Naming.coherent_append_of.mpr ⟨coherent, fits.2⟩
    obtain ⟨matched, agreed⟩ := (Chain.mem_search consistent next).mp searched
    exact ⟨⟨⟨stored, fits.1⟩, matched⟩, agreed⟩
  · rintro ⟨⟨⟨stored, fits⟩, matched⟩, agreed⟩
    have next := agreed.left
    obtain ⟨_, allowed⟩ := Naming.coherent_append_of.mp next
    refine ⟨v, List.mem_filter.mpr ⟨stored, ?_⟩, ?_⟩
    · rw [Bool.and_eq_true]
      exact ⟨fits, allowed⟩
    · exact List.mem_map.mpr
        ⟨hops, (Chain.mem_search consistent next).mpr ⟨matched, agreed⟩, rfl⟩

theorem PathPattern.mem_searchAll (consistent : g.Consistent) {patterns : List PathPattern}
    (coherent : named.Coherent) {ms : List PathMatch} :
    ms ∈ searchAll g named patterns ↔
      List.Forall₂ (fun (p : PathPattern) m => p.Matches g m) patterns ms ∧
        (named ++ namings patterns ms).Coherent := by
  induction patterns generalizing named ms with
  | nil =>
      cases ms with
      | nil => simp [searchAll, namings, coherent]
      | cons m rest => simp [searchAll]
  | cons p patterns ih =>
      rw [searchAll, List.mem_flatMap]
      cases ms with
      | nil => simp
      | cons m rest =>
          have joined : named ++ namings (p :: patterns) (m :: rest) =
              named ++ p.naming m ++ namings patterns rest := by
            simp [namings]
          rw [joined, List.forall₂_cons]
          constructor
          · rintro ⟨m', found, member⟩
            obtain ⟨others, searched, same⟩ := List.mem_map.mp member
            cases same
            obtain ⟨matched, next⟩ := (mem_search consistent coherent).mp found
            obtain ⟨more, agreed⟩ := (ih next).mp searched
            exact ⟨⟨matched, more⟩, agreed⟩
          · rintro ⟨⟨matched, more⟩, agreed⟩
            have next := agreed.left
            refine ⟨m, (mem_search consistent coherent).mpr ⟨matched, next⟩, ?_⟩
            exact List.mem_map.mpr ⟨rest, (ih next).mpr ⟨more, agreed⟩, rfl⟩

end

theorem nodup_extensions {α β γ : Type} {found : List α} {more : α → List β} {put : α → β → γ}
    (once : found.Nodup) (each : ∀ a ∈ found, (more a).Nodup)
    (apart : ∀ a b a' b', put a b = put a' b' → a = a' ∧ b = b') :
    (found.flatMap fun a => (more a).map (put a)).Nodup := by
  rw [List.nodup_flatMap]
  constructor
  · intro a member
    exact (each a member).map fun b b' same => (apart a b a b' same).2
  · refine once.imp fun {a a'} different => ?_
    intro c first second
    obtain ⟨b, _, same⟩ := List.mem_map.mp first
    obtain ⟨b', _, same'⟩ := List.mem_map.mp second
    exact different (apart a b a' b' (same.trans same'.symm)).1

section

variable {g : Graph}

theorem Direction.edgesAt_nodup (consistent : g.Consistent) {d : Direction}
    (directed : d ≠ .both) (id : VertexId) : (d.edgesAt g id).Nodup := by
  have once := consistent.indexed.ids_nodup.of_map
  cases d with
  | outgoing =>
      rw [edgesAt, consistent.indexed.edgesFrom_eq]
      exact once.filter _
  | incoming =>
      rw [edgesAt, consistent.indexed.edgesInto_eq]
      exact once.filter _
  | both => exact absurd rfl directed

theorem Chain.hopsFrom_nodup (consistent : g.Consistent) (named : Naming) (v : Vertex)
    {r : RelationshipPattern} (directed : r.direction ≠ .both) (n : NodePattern) :
    (hopsFrom g named v r n).Nodup := by
  refine nodup_extensions ((Direction.edgesAt_nodup consistent directed v.id).filter _) ?_ ?_
  · intro e _
    exact (consistent.ids_nodup.of_map.filter _).filter _
  · intro e w e' w' same
    exact Prod.mk.inj same

theorem Chain.search_nodup (consistent : g.Consistent) {chain : Chain}
    (directed : ∀ place ∈ chain, place.1.direction ≠ .both) (named : Naming) (v : Vertex) :
    (Chain.search g named v chain).Nodup := by
  induction chain generalizing named v with
  | nil => exact List.nodup_singleton _
  | cons place chain ih =>
      obtain ⟨r, n⟩ := place
      refine nodup_extensions (hopsFrom_nodup consistent named v (directed (r, n) (by simp)) n) ?_ ?_
      · intro hop _
        exact ih (fun other member => directed other (by simp [member])) _ _
      · intro hop rest hop' rest' same
        exact List.cons.inj same

theorem PathPattern.search_nodup (consistent : g.Consistent) {p : PathPattern}
    (directed : ∀ place ∈ p.chain, place.1.direction ≠ .both) (named : Naming) :
    (p.search g named).Nodup := by
  refine nodup_extensions (consistent.ids_nodup.of_map.filter _) ?_ ?_
  · intro v _
    exact Chain.search_nodup consistent directed _ _
  · intro v hops v' hops' same
    exact PathMatch.mk.inj same

theorem PathPattern.searchAll_nodup (consistent : g.Consistent) {patterns : List PathPattern}
    (directed : ∀ p ∈ patterns, ∀ place ∈ p.chain, place.1.direction ≠ .both) (named : Naming) :
    (searchAll g named patterns).Nodup := by
  induction patterns generalizing named with
  | nil => exact List.nodup_singleton _
  | cons p patterns ih =>
      refine nodup_extensions (search_nodup consistent (directed p (by simp)) named) ?_ ?_
      · intro m _
        exact ih (fun other member => directed other (by simp [member])) _
      · intro m rest m' rest' same
        exact List.cons.inj same

end

end PropertyGraph
