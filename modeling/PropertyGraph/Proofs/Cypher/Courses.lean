import PropertyGraph.Proofs.Cypher.Creation
import PropertyGraph.Proofs.Cypher.Passage
import PropertyGraph.Proofs.Cypher.Rows
import PropertyGraph.Proofs.Cypher.Sorts

/-!
Rows on their way through steps that create elements. Each step takes all rows before the next one
begins, so a row is followed by what it has made so far: the graph holds what all rows have made,
and the traverser of a row carries the labels of its own elements.
-/

namespace PropertyGraph

open Exec Plan

namespace Exec

variable {α β : Type}

theorem runs_bind {m : Exec α} {f : α → Exec β} {world after : World} {b : β} :
    (m >>= f).run world = (.ok b, after) ↔
      ∃ a middle, m.run world = (.ok a, middle) ∧ (f a).run middle = (.ok b, after) := by
  rw [run_bind]
  generalize m.run world = seen
  obtain ⟨result, middle⟩ := seen
  cases result with
  | error fault => exact ⟨nofun, fun ⟨_, _, same, _⟩ => nomatch same⟩
  | ok a =>
      constructor
      · exact fun done => ⟨a, middle, rfl, done⟩
      · rintro ⟨_, _, same, done⟩
        cases same
        exact done

theorem forEach_pure (f : Traverser → Traverser) (stream : Stream) :
    forEach (fun t => pure [f t]) stream = pure (stream.map f) := by
  induction stream with
  | nil => rfl
  | cons t rest ih =>
      rw [forEach, ih]
      rfl

end Exec

namespace Traverser

/-- What the variables of a scope stand for along a path. -/
def valuation (b : Cypher.Bindings) (t : Traverser) : Cypher.Valuation :=
  (Environment.onPath b .empty t).value?

theorem labelled_addLabel_fresh {t : Traverser} (fresh : t.here.labels = []) (label name : String) :
    (t.addLabel label).labelled name =
      t.labelled name ++ if label = name then [t.object] else [] := by
  by_cases same : label = name
  · simp [labelled, addLabel, fresh, same, object]
  · simp [labelled, addLabel, fresh, same, Ne.symm same]

end Traverser

namespace Cypher

/-- A row on its way: the traverser that came in with it, and what has been made for it. -/
structure Course where
  entered : Traverser
  made : Made

/-- The graph holds what there was before, and what has been made for all rows. -/
structure Stocked (before : Graph) (courses : List Course) (world : World) : Prop where
  quiet : world.sideEffects = []
  grown : before.Grown (courses.flatMap (·.made.vertices)) (courses.flatMap (·.made.edges))
    world.store.graph

variable {before : Graph} {R S T : Traverser → Course → Prop} {courses : List Course}

theorem Stocked.stands {front back : List Course} {c : Course} {world : World}
    (stocked : Stocked before (front ++ c :: back) world) {made : Made} {x : Element}
    (open_ : c.made = made.holding x) : made.StandsIn before world.store.graph where
  reachable := stocked.grown.reachable
  vertices v member := by
    refine stocked.grown.vertices.mem ?_
    rw [List.mem_append] at member ⊢
    refine member.imp_right fun here => List.mem_flatMap_of_mem (a := c) (by simp) ?_
    rw [open_]
    cases x with
    | vertex w => exact List.mem_append_left _ here
    | edge e => exact here
  edges e member := by
    refine stocked.grown.edges.mem ?_
    rw [List.mem_append] at member ⊢
    refine member.imp_right fun here => List.mem_flatMap_of_mem (a := c) (by simp) ?_
    rw [open_]
    cases x with
    | vertex w => exact here
    | edge e => exact List.mem_append_left _ here

/-- The traverser of each row moves on, whatever other rows have made, and changes what has been
made for its own row only. -/
def Advances (before : Graph) (R : Traverser → Course → Prop) (f : Traverser → Exec Stream)
    (S : Traverser → Course → Prop) : Prop :=
  ∀ ⦃t c⦄, R t c → ∀ ⦃front back world⦄, Stocked before (front ++ c :: back) world →
    ∀ ⦃out after⦄, (f t).run world = (.ok out, after) →
      ∃ u d, out = [u] ∧ d.entered = c.entered ∧ S u d ∧ Stocked before (front ++ d :: back) after

theorem Advances.forEach {f : Traverser → Exec Stream} (advances : Advances before R f S)
    {stream : Stream} (follow : List.Forall₂ R stream courses) {front : List Course}
    {world after : World} (stocked : Stocked before (front ++ courses) world) {out : Stream}
    (ran : (Exec.forEach f stream).run world = (.ok out, after)) :
    ∃ others, List.Forall₂ S out others ∧ others.map (·.entered) = courses.map (·.entered) ∧
      Stocked before (front ++ others) after := by
  induction follow generalizing front world out with
  | nil =>
      cases ran
      exact ⟨[], .nil, rfl, stocked⟩
  | @cons t c rest courses follows _ ih =>
      obtain ⟨first, middle, one, ran⟩ := runs_bind.mp ran
      obtain ⟨more, last, several, same⟩ := runs_bind.mp ran
      cases same
      obtain ⟨u, d, rfl, entered, followed, stocked⟩ := advances follows stocked one
      rw [← List.singleton_append, ← List.append_assoc] at stocked
      obtain ⟨others, all, kept, stocked⟩ := ih stocked several
      refine ⟨d :: others, .cons followed all, by simp [entered, kept], ?_⟩
      rwa [List.append_assoc] at stocked

/-- The stages take all rows on from one state to another. -/
def Conveys (before : Graph) (R : Traverser → Course → Prop) (stages : List Stage)
    (S : Traverser → Course → Prop) : Prop :=
  ∀ ⦃engine stream courses world⦄, List.Forall₂ R stream courses → Stocked before courses world →
    ∀ ⦃out after⦄, (runStages engine stages stream).run world = (.ok out, after) →
      ∃ others, List.Forall₂ S out others ∧ others.map (·.entered) = courses.map (·.entered) ∧
        Stocked before others after

namespace Conveys

variable {stages more : List Stage}

theorem nil : Conveys before R [] R := by
  intro engine stream courses world follow stocked out after ran
  cases ran
  exact ⟨courses, follow, rfl, stocked⟩

theorem append (first : Conveys before R stages S) (next : Conveys before S more T) :
    Conveys before R (stages ++ more) T := by
  intro engine stream courses world follow stocked out after ran
  rw [runStages_append] at ran
  obtain ⟨between, middle, one, two⟩ := runs_bind.mp ran
  obtain ⟨others, follow, entered, stocked⟩ := first follow stocked one
  obtain ⟨last, follow, entered', stocked⟩ := next follow stocked two
  exact ⟨last, follow, entered'.trans entered, stocked⟩

theorem imp {R' S' : Traverser → Course → Prop} (conveys : Conveys before R stages S)
    (weaker : ∀ t c, R' t c → R t c) (stronger : ∀ t c, S t c → S' t c) :
    Conveys before R' stages S' := by
  intro engine stream courses world follow stocked out after ran
  obtain ⟨others, follow, entered, stocked⟩ :=
    conveys (follow.imp fun t c => weaker t c) stocked ran
  exact ⟨others, follow.imp fun t c => stronger t c, entered, stocked⟩

theorem step {kind : StepKind} {arguments : List Argument} {children : List Plan}
    {modulators : List Modulator} (f : Engine → Traverser → Exec Stream)
    (each : ∀ engine stream, Application.perform engine ⟨kind, arguments,
      runChildren engine children, modulations engine modulators⟩ stream = forEach (f engine) stream)
    (advances : ∀ engine, Advances before R (f engine) S) :
    Conveys before R [.apply (.mk kind arguments) children modulators] S := by
  intro engine stream courses world follow stocked out after ran
  rw [runStages_one] at ran
  have ran : (forEach (f engine) stream).run world = (.ok out, after) := each engine stream ▸ ran
  have stocked : Stocked before ([] ++ courses) world := stocked
  exact (advances engine).forEach follow stocked ran

end Conveys

/-! What a traverser knows of its row. -/

/-- The names of a scope are those from before, and what parts are called. -/
structure Declares (b : Bindings) (anchors : List Anchor) (scope : Scope) : Prop where
  distinct : anchors.Nodup
  numbered : ∀ n, .unnamed n ∈ anchors → n ≤ scope.unnamed
  declared : ∀ name, .named name ∈ anchors →
    ∃ kind, Dictionary.get? name scope.bindings = some kind ∧ kind ≠ .relationships
  kept : ∀ name, .named name ∉ anchors →
    Dictionary.get? name scope.bindings = Dictionary.get? name b
  unreserved : ∀ name, (Dictionary.get? name scope.bindings).isSome →
    ∀ n, name ≠ unnamedLabel n

/-- The traverser came in with the row, by no map, and carries the labels of what was made. -/
structure Tracks (b : Bindings) (t : Traverser) (c : Course) : Prop where
  binds : c.entered.Binds b
  plain : ∀ visit ∈ t.here :: t.past, visit.object.map? = none
  labelled : ∀ label, t.labelled label =
    c.entered.labelled label ++ (c.made.known.filter (·.1.label == label)).map (·.2)

/-- The parts have been made for the row, and the traverser tracks them. -/
structure Follows (b : Bindings) (before : Graph) (parts : List Part) (t : Traverser) (c : Course) :
    Prop where
  tracks : Tracks b t c
  makes : MadeFor before (c.entered.valuation b) parts c.made

theorem filter_label {known : Dictionary Anchor Value} (distinct : (known.map (·.1)).Nodup)
    {anchor : Anchor} (apart : ∀ other ∈ known.map (·.1), other.label = anchor.label →
      other = anchor) :
    (known.filter (·.1.label == anchor.label)).map (·.2) =
      (Dictionary.get? anchor known).toList := by
  induction known with
  | nil => rfl
  | cons entry rest ih =>
      obtain ⟨other, v⟩ := entry
      rw [List.map_cons, List.nodup_cons] at distinct
      have others := ih distinct.2 fun a member => apart a (List.mem_cons_of_mem _ member)
      by_cases same : other = anchor
      · subst same
        have absent : Dictionary.get? other rest = none := by
          rw [← Option.not_isSome_iff_eq_none, Dictionary.get?_isSome]
          exact distinct.1
        rw [absent] at others
        simp [Dictionary.get?, others]
      · have differs : other.label ≠ anchor.label := fun equal =>
          same (apart other List.mem_cons_self equal)
        simp [Dictionary.get?, same, differs, others]

variable {b : Bindings} {anchors : List Anchor} {parts : List Part} {scope : Scope} {t : Traverser}
  {c : Course} {world : World}

theorem Declares.apart (declares : Declares b anchors scope) {anchor other : Anchor}
    (unreserved : ∀ name, anchor = .named name → ∀ n, name ≠ unnamedLabel n)
    (member : other ∈ anchors) (same : other.label = anchor.label) : other = anchor := by
  cases other with
  | named name =>
      cases anchor with
      | named _ => exact congrArg _ same
      | unnamed n =>
          obtain ⟨kind, bound, _⟩ := declares.declared name member
          exact absurd same (declares.unreserved name (by simp [bound]) n)
  | unnamed n =>
      cases anchor with
      | named name => exact absurd same.symm (unreserved name rfl n)
      | unnamed _ => exact congrArg _ (unnamedLabel_injective same)

/-- What an end of a relationship may be called: a variable for a node, or a new anonymous node. -/
def Nameable (scope : Scope) (anchors : List Anchor) : Anchor → Prop
  | .named name => Dictionary.get? name scope.bindings = some .node
  | .unnamed n => .unnamed n ∈ anchors

namespace Tracks

/-- The traverser of a row has no entries, so a name stands for labelled objects. -/
theorem named?_eq (tracks : Tracks b t c) (quiet : world.sideEffects = []) (pop : Pop)
    (name : String) : world.named? t pop name = t.pathValue? pop name := by
  have here : t.object.map? = none := tracks.plain _ List.mem_cons_self
  simp [World.named?, here, quiet, Dictionary.get?]

theorem split (tracks : Tracks b t c) {v : Value} (plain : v.map? = none) :
    Tracks b (t.split v) c where
  binds := tracks.binds
  plain := List.forall_mem_cons.mpr ⟨plain, tracks.plain⟩
  labelled label := (t.labelled_split v label).trans (tracks.labelled label)

end Tracks

namespace Follows

theorem labelled_anchor (follows : Follows b before parts t c)
    (declares : Declares b (parts.filterMap Part.anchor?) scope) (anchor : Anchor)
    (unreserved : ∀ name, anchor = .named name → ∀ n, name ≠ unnamedLabel n) :
    t.labelled anchor.label =
      c.entered.labelled anchor.label ++ (Dictionary.get? anchor c.made.known).toList := by
  have anchors := follows.makes.anchors
  have distinct : (c.made.known.map (·.1)).Nodup := anchors ▸ declares.distinct
  rw [follows.tracks.labelled, filter_label distinct fun other member =>
    declares.apart unreserved (anchors ▸ member)]

theorem known (follows : Follows b before parts t c) {anchor : Anchor} :
    (Dictionary.get? anchor c.made.known).isSome ↔ anchor ∈ parts.filterMap Part.anchor? := by
  rw [Dictionary.get?_isSome, follows.makes.anchors]

theorem onPath_eq (follows : Follows b before parts t c)
    (declares : Declares b (parts.filterMap Part.anchor?) scope) (g : Graph) :
    Environment.onPath scope.bindings g t =
      ⟨g, fun name => c.made.value? (c.entered.valuation b) (.named name)⟩ := by
  refine congrArg (Environment.mk g) (funext fun name => ?_)
  by_cases new : .named name ∈ parts.filterMap Part.anchor?
  · obtain ⟨kind, bound, single⟩ := declares.declared name new
    obtain ⟨v, found⟩ := Option.isSome_iff_exists.mp (follows.known.mpr new)
    have labelled := follows.labelled_anchor declares (.named name)
      fun _ same => by cases same; exact declares.unreserved name (by simp [bound])
    rw [found] at labelled
    have last : (t.labelled name).getLast? = some v := by
      change (t.labelled (Anchor.named name).label).getLast? = some v
      simp [labelled]
    cases kind <;> simp_all [Made.value?]
  · have absent : Dictionary.get? (.named name) c.made.known = none := by
      rw [← Option.not_isSome_iff_eq_none, follows.known]
      exact new
    have kept := declares.kept name new
    rw [kept, Made.value?, absent, Option.none_or]
    cases bound : Dictionary.get? name b with
    | none => simp [Traverser.valuation, Environment.onPath, bound]
    | some kind =>
        have labelled := follows.labelled_anchor declares (.named name)
          fun _ same => by cases same; exact declares.unreserved name (by simp [kept, bound])
        rw [absent, Option.toList_none, List.append_nil] at labelled
        have same : t.labelled name = c.entered.labelled name := labelled
        cases kind <;> simp [Traverser.valuation, Environment.onPath, bound, same]

theorem binds (follows : Follows b before parts t c)
    (declares : Declares b (parts.filterMap Part.anchor?) scope) : t.Binds scope.bindings := by
  intro name kind bound single
  have labelled := follows.labelled_anchor declares (.named name)
    fun _ same => by cases same; exact declares.unreserved name (by simp [bound])
  change t.labelled (Anchor.named name).label ≠ []
  rw [labelled]
  by_cases new : .named name ∈ parts.filterMap Part.anchor?
  · obtain ⟨v, found⟩ := Option.isSome_iff_exists.mp (follows.known.mpr new)
    simp [found]
  · have before := follows.tracks.binds name kind (declares.kept name new ▸ bound) single
    exact fun nothing => before (List.append_eq_nil_iff.mp nothing).1

theorem exposes (follows : Follows b before parts t c) (quiet : world.sideEffects = []) :
    world.Exposes t scope.bindings := by
  intro name _
  have here : t.object.map? = none := follows.tracks.plain _ List.mem_cons_self
  simp [here, quiet, Dictionary.get?]

/-- What a traverser finds under the names of the scope is what the row gives them. -/
theorem seenFrom_eq (follows : Follows b before parts t c)
    (declares : Declares b (parts.filterMap Part.anchor?) scope)
    (quiet : world.sideEffects = []) :
    Environment.seenFrom scope.bindings world t =
      ⟨world.store.graph, fun name => c.made.value? (c.entered.valuation b) (.named name)⟩ :=
  (Environment.seenFrom_eq (follows.exposes quiet)).trans (follows.onPath_eq declares _)

theorem covers (follows : Follows b before parts t c)
    (declares : Declares b (parts.filterMap Part.anchor?) scope)
    (quiet : world.sideEffects = []) :
    (Environment.seenFrom scope.bindings world t).Covers scope.bindings := by
  rw [Environment.seenFrom_eq (follows.exposes quiet)]
  exact Environment.onPath_covers _ (follows.binds declares)

theorem named?_anchor (follows : Follows b before parts t c)
    (declares : Declares b (parts.filterMap Part.anchor?) scope)
    (quiet : world.sideEffects = []) {anchor : Anchor}
    (nameable : Nameable scope (parts.filterMap Part.anchor?) anchor) :
    world.named? t .last anchor.label = c.made.value? (c.entered.valuation b) anchor := by
  cases anchor with
  | named name =>
      have seen := congrArg (·.value? name) (follows.seenFrom_eq declares quiet)
      have bound : Dictionary.get? name scope.bindings = some .node := nameable
      simpa [Environment.seenFrom, bound, Anchor.label] using seen
  | unnamed n =>
      have labelled := follows.labelled_anchor declares (.unnamed n) fun _ same => by cases same
      obtain ⟨v, found⟩ := Option.isSome_iff_exists.mp (follows.known.mpr nameable)
      rw [follows.tracks.named?_eq quiet, Traverser.pathValue?, labelled, Made.value?, found]
      simp

end Follows

end Cypher

end PropertyGraph

/-! ## Clauses that change what was found

They go through the rows one after another, each row on the graph that the rows before it left, and
leave the rows as they are. -/

namespace PropertyGraph

open Exec Plan

/-- The rows act one after another. -/
inductive Through (act : Traverser → World → World → Prop) : Stream → World → World → Prop
  | nil (world : World) : Through act [] world world
  | cons {t : Traverser} {rest : Stream} {world middle after : World}
      (first : act t world middle) (others : Through act rest middle after) :
      Through act (t :: rest) world after

namespace Through

variable {act act' : Traverser → World → World → Prop} {stream : Stream} {world after : World}

theorem imp {I : World → Prop} (through : Through act stream world after)
    (implies : ∀ t ∈ stream, ∀ w w', I w → act t w w' → act' t w w' ∧ I w') (holds : I world) :
    Through act' stream world after ∧ I after := by
  induction through with
  | nil world => exact ⟨.nil world, holds⟩
  | cons first _ ih =>
      obtain ⟨acted, still⟩ := implies _ List.mem_cons_self _ _ holds first
      obtain ⟨others, last⟩ := ih (fun t later => implies t (List.mem_cons_of_mem _ later)) still
      exact ⟨.cons acted others, last⟩

end Through

/-- A sub-traversal that ends for a single traverser, whatever comes out. -/
def Child.Ends (child : Child) (t : Traverser) (world after : World) : Prop :=
  ∃ out, (child.run [t]).run world = (.ok out, after)

namespace Application

theorem sideEffect_runs {a : Application} {child : Child} (children : a.children = [child])
    {stream out : Stream} {world after : World} :
    (a.sideEffect stream).run world = (.ok out, after) ↔
      out = stream ∧ Through child.Ends stream world after := by
  have each : a.sideEffect stream = forEach (fun t => do
      let _ ← child.run [t]
      return [t]) stream := by
    simp [sideEffect, Application.child, children]
  rw [each]
  clear each
  induction stream generalizing out world with
  | nil =>
      constructor
      · rintro ⟨⟩
        exact ⟨rfl, .nil _⟩
      · rintro ⟨rfl, ⟨⟩⟩
        rfl
  | cons t rest ih =>
      have one {passed : Stream} {middle : World} :
          (do
            let _ ← child.run [t]
            return [t] : Exec Stream).run world = (.ok passed, middle) ↔
            passed = [t] ∧ child.Ends t world middle := by
        rw [runs_bind]
        constructor
        · rintro ⟨found, _, ran, ⟨⟩⟩
          exact ⟨rfl, found, ran⟩
        · rintro ⟨rfl, found, ran⟩
          exact ⟨found, middle, ran, rfl⟩
      rw [forEach, runs_bind]
      constructor
      · rintro ⟨passed, middle, first, later⟩
        obtain ⟨others, last, second, ⟨⟩⟩ := runs_bind.mp later
        obtain ⟨rfl, ends⟩ := one.mp first
        obtain ⟨rfl, through⟩ := ih.mp second
        exact ⟨rfl, .cons ends through⟩
      · rintro ⟨rfl, through⟩
        cases through with
        | cons ends others =>
            exact ⟨[t], _, one.mpr ⟨rfl, ends⟩,
              runs_bind.mpr ⟨rest, after, ih.mpr ⟨rfl, others⟩, rfl⟩⟩

end Application

namespace Traverser.Knows

variable {b : Cypher.Bindings} {extra : List String} {t : Traverser} {world : World}

/-- Nothing stands before the variables of what was found. -/
theorem exposes (knows : t.Knows b extra) (quiet : world.sideEffects = []) :
    world.Exposes t b := by
  have here : t.object.map? = none := knows.plain _ List.mem_cons_self
  exact fun name _ => ⟨by rw [here]; rfl, by rw [quiet]; rfl⟩

theorem seenFrom_eq (knows : t.Knows b extra) (quiet : world.sideEffects = []) :
    Environment.seenFrom b world t = .onPath b world.store.graph t :=
  Environment.seenFrom_eq (knows.exposes quiet)

theorem covers (knows : t.Knows b extra) (quiet : world.sideEffects = []) :
    (Environment.seenFrom b world t).Covers b := by
  rw [knows.seenFrom_eq quiet]
  exact Environment.onPath_covers _ knows.binds

end Traverser.Knows

namespace Cypher

open Script

variable {inside : Ops} {stages : List Stage} {engine : Engine}

/-- Operations that act as a side effect build one stage, whose runs are the runs of each row. -/
theorem sideEffect_builds (builds : Builds inside stages) :
    ∃ stage, Builds [.nested .sideEffect [.of inside]] [stage] ∧
      ∀ {engine : Engine} {stream out : Stream} {world after : World},
        (runStages engine [stage] stream).run world = (.ok out, after) ↔ out = stream ∧
          Through (fun t w w' => ∃ out, (runStages engine stages [t]).run w = (.ok out, w')) stream
            world after := by
  obtain ⟨programs, builds⟩ := Builds.nested .sideEffect ⟨rfl, by decide⟩ rfl
    (.cons (.of builds) .nil)
  refine ⟨_, builds, fun {engine stream out world after} => ?_⟩
  rw [runStages_one]
  exact Application.sideEffect_runs
    (a := ⟨.sideEffect, programs.map .program, runChildren engine [.mk stages []], []⟩) rfl

/-- A variable that stands for one element is found, as the last object under its label. -/
theorem stands_find {b : Bindings} {at_ kind : NameKind} {name : String} {world : World}
    {t : Traverser} (stands : t.Stands b at_) (quiet : world.sideEffects = [])
    (declared : Dictionary.get? name b = some kind) (single : kind ≠ .relationships) :
    ∃ v, world.named? t .last name = some v ∧ (t.labelled name).getLast? = some v ∧
      t.valuation b name = some v ∧ kind.Holds v := by
  obtain ⟨v, seen⟩ := Option.isSome_iff_exists.mp
    (stands.knows.covers quiet name (by simp [declared]))
  have found : world.named? t .last name = some v := by
    cases kind <;> simp_all [Environment.seenFrom]
  rw [stands.knows.seenFrom_eq quiet] at seen
  have last : t.valuation b name = (t.labelled name).getLast? := by
    cases kind <;> simp_all [Traverser.valuation, Environment.onPath]
  have labelled := last.symm.trans seen
  exact ⟨v, found, labelled, seen, stands.sorted.labelled declared (List.mem_of_getLast? labelled)⟩

theorem select_leads {b : Bindings} (at_ : NameKind) {kind : NameKind} {name : String}
    (declared : Dictionary.get? name b = some kind) (single : kind ≠ .relationships) :
    ∃ stages, Builds [.select [name]] stages ∧ ∀ {engine : Engine} {world : World} {t : Traverser},
      t.Stands b at_ → world.sideEffects = [] → ∃ v, t.valuation b name = some v ∧
        kind.Holds v ∧ Gives world (runStages engine stages [t]) (.ok [t.split v]) := by
  refine ⟨_, Builds.labelled .select ⟨rfl, by decide⟩ rfl [name],
    fun {engine world t} stands quiet => ?_⟩
  obtain ⟨v, found, _, value, holds⟩ := stands_find stands quiet declared single
  refine ⟨v, value, holds, ?_⟩
  rw [runStages_one]
  change Gives world (forEach (Application.selectOne ⟨.select, [.label name], [], []⟩ .last
    [name]) [t]) _
  rw [forEach_one]
  exact Application.selectOne_gives rfl found

end Cypher

end PropertyGraph
