import PropertyGraph.Proofs.Cypher.ExpressionSoundness
import PropertyGraph.Proofs.Cypher.Reach

/-!
Builders on the way through the clauses of a query: what they hold leads to traversers that know the
variables of the scope.
-/

namespace PropertyGraph

open Exec Plan

namespace Traverser

variable {t : Traverser} {b : Cypher.Bindings} {extra : List String}

/-- The path binds the variables of a scope, carries some labels more, and has come by no map. -/
structure Knows (b : Cypher.Bindings) (extra : List String) (t : Traverser) : Prop where
  binds : t.Binds b
  carries : ∀ name ∈ extra, t.labelled name ≠ []
  plain : ∀ visit ∈ t.here :: t.past, visit.object.map? = none

theorem labelled_addLabel {name : String} (label : String) (known : t.labelled name ≠ []) :
    (t.addLabel label).labelled name ≠ [] := by
  by_cases same : name = label
  · subst same
    have last := last_addLabel t name
    intro empty
    simp [empty] at last
  · rwa [labelled_addLabel_of_ne t same]

theorem labels_addLabel (t : Traverser) (label : String) :
    (t.addLabel label).labelled label ≠ [] := by
  have last := last_addLabel t label
  intro empty
  simp [empty] at last

namespace Knows

theorem start {v : Value} (plain : v.map? = none) : (Traverser.start v).Knows [] [] where
  binds := nofun
  carries := nofun
  plain := List.forall_mem_cons.mpr ⟨plain, nofun⟩

theorem split (knows : t.Knows b extra) {v : Value} (plain : v.map? = none) :
    (t.split v).Knows b extra where
  binds := knows.binds.split v
  carries name member := by
    rw [labelled_split]
    exact knows.carries name member
  plain := List.forall_mem_cons.mpr ⟨plain, knows.plain⟩

theorem split_named (knows : t.Knows b extra) {name : String} {v : Value}
    (found : t.named? .last name = some v) : (t.split v).Knows b extra := by
  have here : t.object.map? = none := knows.plain _ List.mem_cons_self
  simp only [named?, World.named?, here, Option.bind_none, Dictionary.get?, pathValue?] at found
  have visited := List.mem_reverse.mp (List.mem_of_getLast? found)
  obtain ⟨visit, member, rfl⟩ := List.mem_map.mp visited
  exact knows.split (knows.plain visit (List.mem_of_mem_filter member))

theorem addLabel (knows : t.Knows b extra) (label : String) :
    (t.addLabel label).Knows b extra where
  binds name kind declared single := labelled_addLabel label (knows.binds name kind declared single)
  carries name member := labelled_addLabel label (knows.carries name member)
  plain := by
    have here := t.object_addLabel label
    rw [object, object] at here
    refine List.forall_mem_cons.mpr ⟨?_, ?_⟩
    · rw [here]
      exact knows.plain _ List.mem_cons_self
    · rw [past_addLabel]
      exact fun visit member => knows.plain visit (List.mem_cons_of_mem _ member)

theorem declare (knows : t.Knows b extra) {name : String} (kind : NameKind)
    (labelled : kind ≠ .relationships → t.labelled name ≠ []) :
    t.Knows (Dictionary.put name kind b) extra where
  binds other found declared single := by
    rw [Dictionary.get?_put] at declared
    split at declared
    · next same =>
        cases declared
        exact same ▸ labelled single
    · exact knows.binds other found declared single
  carries := knows.carries
  plain := knows.plain

theorem carry (knows : t.Knows b extra) {name : String} (labelled : t.labelled name ≠ []) :
    t.Knows b (name :: extra) :=
  ⟨knows.binds, List.forall_mem_cons.mpr ⟨labelled, knows.carries⟩, knows.plain⟩

theorem forget {fewer : List String} (knows : t.Knows b extra)
    (included : ∀ name ∈ fewer, name ∈ extra) : t.Knows b fewer :=
  ⟨knows.binds, fun name member => knows.carries name (included name member), knows.plain⟩

theorem steady (b : Cypher.Bindings) (extra : List String) :
    Application.Loop.Steady fun t => t.Knows b extra where
  enter _ knows := ⟨knows.binds, knows.carries, knows.plain⟩
  count t knows := by
    unfold countLoop
    split
    · exact knows
    · exact ⟨knows.binds, knows.carries, knows.plain⟩
  exit _ knows := ⟨knows.binds, knows.carries, knows.plain⟩

end Knows

end Traverser

namespace Cypher

open Script

variable {scope : Scope} {extra : List String} {l l' : Live} {operations : Ops}

/-- Streams of traversers that know the variables. -/
abbrev Known (b : Bindings) (extra : List String) : Stream → Prop :=
  All fun t => t.Knows b extra

/-- An emission that a loop may take. -/
def emission : Modulator := .mk (.mk .emit []) [] false

/-- A builder that supplies traversers of one sort, also if its last loop takes an emission that is
meant for the next one. -/
structure Supplies (R : Traverser → Prop) (l : Live) : Prop where
  bound : l.bound = true
  settled : l.plan.pending = []
  runs : StagesCarry (· = []) l.plan.stages (All R)
  emitting : ∀ stages, attach? emission .emit l.plan.stages = some stages →
    StagesCarry (· = []) stages (All R)

/-- Only a loop takes an emission. -/
theorem attach?_straight (modulator : Modulator) (stages : List Stage) {last : Stage}
    (straight : last.isLoop = false) : attach? modulator .emit (stages ++ [last]) = none := by
  cases last with
  | apply step children modulators =>
      refine attach_refused modulator stages step ?_ children modulators
      have other : step.kind ≠ .repeat_ := beq_eq_false_iff_ne.mp straight
      simp [modulates, StepKind.isLoopModulator, other]
  | _ =>
      induction stages with
      | nil => rfl
      | cons stage rest ih =>
          rw [List.cons_append, attach?, ih]
          · rfl
          · intro _ _ _ _ nothing
            simp at nothing

namespace Supplies

variable {R S : Traverser → Prop}

theorem imp (supplies : Supplies R l) (implies : ∀ t, R t → S t) : Supplies S l where
  bound := supplies.bound
  settled := supplies.settled
  runs := supplies.runs.imp (fun _ nothing => nothing) fun _ all t member => implies t (all t member)
  emitting stages taken := (supplies.emitting stages taken).imp (fun _ nothing => nothing)
    fun _ all t member => implies t (all t member)

theorem extend (supplies : Supplies R l) {stages : List Stage}
    (straight : ∀ stage ∈ stages, stage.isLoop = false)
    (carry : StagesCarry (All R) stages (All S)) (program : Program) :
    Supplies S ⟨l.bound, program, .mk (l.plan.stages ++ stages) []⟩ where
  bound := supplies.bound
  settled := rfl
  runs := supplies.runs.append carry
  emitting attached taken := by
    rcases List.eq_nil_or_concat stages with rfl | ⟨front, last, rfl⟩
    · change attach? emission .emit (l.plan.stages ++ []) = some attached at taken
      rw [List.append_nil] at taken
      have whole := (supplies.emitting attached taken).append carry
      rwa [List.append_nil] at whole
    · rw [List.concat_eq_append] at straight taken
      change attach? emission .emit (l.plan.stages ++ (front ++ [last])) = some attached at taken
      rw [← List.append_assoc, attach?_straight emission _ (straight last (by simp))] at taken
      cases taken

theorem pass (supplies : Supplies R l) (passes : Passes (All R) operations (All S))
    (performed : performAll operations l = .ok l') : Supplies S l' := by
  obtain ⟨stages, builds, straight, carry⟩ := passes
  obtain ⟨program, done⟩ := builds l supplies.settled
  cases Except.ok.inj (performed.symm.trans done)
  exact supplies.extend straight carry program

theorem first {stage : Stage} (straight : stage.isLoop = false)
    (carry : StagesCarry (· = []) [stage] (All R)) (bound : l.bound = true)
    (plan : l.plan = .mk [stage] []) : Supplies R l := by
  refine ⟨bound, ?_, ?_, fun stages taken => ?_⟩
  · rw [plan, Plan.pending]
  · rw [plan, Plan.stages]
    exact carry
  · rw [plan, Plan.stages] at taken
    have refused := attach?_straight emission [] straight
    rw [List.nil_append, taken] at refused
    cases refused

/-- A builder that holds a loop last, which may be given more modulators. -/
structure Loops (R : Traverser → Prop) (front : List Stage) (program : List Argument)
    (body : Plan) (modulators : List Modulator) (l : Live) : Prop where
  bound : l.bound = true
  plan : l.plan = .mk (front ++ [.apply (.mk .repeat_ program) [body] modulators]) []
  leads : StagesCarry (· = []) front (All R)
  walks : body.Carries (Count 1 R) (All R)
  modulate : ∀ m ∈ modulators, Application.IsLoopModulator R m

variable {front : List Stage} {program : List Argument} {body : Plan}
  {modulators : List Modulator}

theorem Loops.supplies (loops : Loops R front program body modulators l)
    (steady : Application.Loop.Steady R) : Supplies R l where
  bound := loops.bound
  settled := by rw [loops.plan, Plan.pending]
  runs := by
    rw [loops.plan, Plan.stages]
    exact loops.leads.append (Application.repeat_carries loops.walks loops.modulate steady)
  emitting stages taken := by
    rw [loops.plan, Plan.stages, attach_last emission front _ rfl] at taken
    cases taken
    refine loops.leads.append (Application.repeat_carries loops.walks ?_ steady)
    exact List.forall_mem_append.mpr ⟨loops.modulate, fun m member =>
      List.mem_singleton.mp member ▸ .emit⟩

theorem Loops.modulated (loops : Loops R front program body modulators l)
    {operations : Ops} {given : List Modulator}
    (modulate : List.Forall₂ (Modulates .repeat_) operations given)
    (fit : ∀ m ∈ given, Application.IsLoopModulator R m)
    (performed : performAll operations l = .ok l') :
    Loops R front program body (modulators ++ given) l' := by
  obtain ⟨bound, recorded, plan⟩ := l
  cases loops.plan
  obtain ⟨after, done⟩ :=
    Modulates.all modulate bound recorded front program [body] modulators
  cases Except.ok.inj (performed.symm.trans done)
  exact ⟨loops.bound, rfl, loops.leads, loops.walks,
    List.forall_mem_append.mpr ⟨loops.modulate, fit⟩⟩

/-- A loop takes the modulators that wait for it. -/
theorem performOne_loop {inside : Ops} {stages : List Stage} (builds : Builds inside stages)
    (l : Live) : ∃ program recorded, performOne (.nested .repeat_ [.of inside]) l =
      .ok ⟨l.bound, recorded, .mk (l.plan.stages ++
        [.apply (.mk .repeat_ program) [.mk stages []] l.plan.pending]) []⟩ := by
  obtain ⟨recorded, performed⟩ := builds.fresh
  obtain ⟨bound, program, ⟨front, pending⟩⟩ := l
  refine ⟨[.program recorded], program ++ [.mk .repeat_ [.program recorded]], ?_⟩
  simp only [Op.nested, List.map_cons, List.map_nil, performOne, resolve, resolveOne, perform,
    performed]
  rfl

/-- Where an emission goes if nothing waits. -/
theorem add_emission (stages : List Stage) : Plan.add (.mk .emit []) [] (.mk stages []) =
    match attach? emission .emit stages with
    | some attached => .mk attached []
    | none => .mk stages [.mk (.mk .emit []) [] true] := rfl

/-- An emission goes to a loop that stands last, or waits for the next one. -/
theorem emits (supplies : Supplies R l)
    (performed : performAll [.append .emit []] l = .ok l') : l'.bound = true ∧
      StagesCarry (· = []) l'.plan.stages (All R) ∧
      (l'.plan.pending = [] ∨ l'.plan.pending = [.mk (.mk .emit []) [] true]) := by
  obtain ⟨bound, program, ⟨stages, pending⟩⟩ := l
  cases (supplies.settled : pending = [])
  cases performed
  change bound = true ∧ StagesCarry _ (Plan.add (.mk .emit []) [] (.mk stages [])).stages _ ∧
    ((Plan.add (.mk .emit []) [] (.mk stages [])).pending = [] ∨
      (Plan.add (.mk .emit []) [] (.mk stages [])).pending = [.mk (.mk .emit []) [] true])
  refine ⟨supplies.bound, ?_⟩
  rw [add_emission]
  cases taken : attach? emission .emit stages with
  | none => exact ⟨supplies.runs, .inr rfl⟩
  | some attached => exact ⟨supplies.emitting attached taken, .inl rfl⟩

theorem times_modulates (n : Nat) : Modulates .repeat_ (.times n)
    (.mk (.mk .times [.literal (.ofNat n)]) [] false) := by
  have resolved : resolve [Slot.literal (.ofNat n)] =
      .ok [(Slot.literal (.ofNat n) : Slot Live)] := rfl
  exact Modulates.step rfl rfl rfl resolved

/-- The condition of an emission asks how often the loop has run. -/
theorem counts_passes (n : Nat) : Passes (Count 1 R)
    [.append .loops [], .is_ (.gte (.ofNat n))] fun _ => True := by
  have loops : Passes (Count 1 R) [.append .loops []] (All Anything) :=
    .bare ⟨rfl, by decide⟩ (by decide) rfl fun _ stream _ =>
      (Application.loops_sound stream).imp fun _ _ _ _ => trivial
  exact loops.append ((Passes.is_ _).after fun _ _ => trivial)

theorem times_fit {n : Nat} (small : n < twoTo 32) :
    Application.IsLoopModulator R (.mk (.mk .times [.literal (.ofNat n)]) [] false) := by
  refine .times ?_
  have unchanged : (Int64.ofNat n).toInt = n :=
    Int64.toInt_ofNat_of_lt (Nat.lt_trans small (by decide))
  rw [unchanged]
  exact Int.ofNat_lt.mpr small

theorem pathLoop (supplies : Supplies R l) (steady : Application.Loop.Steady R) {inside : Ops}
    {range : PathLength} (small : ∀ n ∈ range.max, n < twoTo 32)
    (walks : Passes (Count 1 R) inside (All R))
    (performed : performAll (Cypher.pathLoop inside range) l = .ok l') :
    Supplies R l' ∧ l'.plan.stages ≠ [] := by
  obtain ⟨body, builds, _, carry⟩ := walks
  have standing {looped : Live} {front program modulators}
      (loops : Loops R front program (.mk body []) modulators looped) :
      Supplies R looped ∧ looped.plan.stages ≠ [] := by
    refine ⟨loops.supplies steady, ?_⟩
    rw [loops.plan, Plan.stages]
    simp
  -- The number of rounds is given last.
  have counted {looped : Live} {front program modulators}
      (performed : performAll ((range.max.map .times).toList) looped = .ok l')
      (loops : Loops R front program (.mk body []) modulators looped) :
      Supplies R l' ∧ l'.plan.stages ≠ [] := by
    cases most : range.max with
    | none =>
        rw [most] at performed
        cases performed
        exact standing loops
    | some n =>
        rw [most] at performed
        have fit := times_fit (R := R) (small n most)
        exact standing (loops.modulated (.cons (times_modulates n) .nil)
          (fun m member => List.mem_singleton.mp member ▸ fit) performed)
  unfold Cypher.pathLoop at performed
  obtain ⟨looped, emitted, performed⟩ := performed_append.mp performed
  split at emitted
  · obtain ⟨waiting, emits, emitted⟩ := performed_cons.mp emitted
    obtain ⟨bound, leads, pending⟩ := supplies.emits emits
    obtain ⟨program, recorded, looping⟩ := performOne_loop builds waiting
    rw [performAll, looping, ok_bind] at emitted
    cases emitted
    refine counted performed ⟨bound, rfl, leads, carry.plan, fun m member => ?_⟩
    rcases pending with none | one
    · rw [none] at member
      cases member
    · rw [one, List.mem_singleton] at member
      exact member ▸ .emit
  · obtain ⟨program, recorded, looping⟩ := performOne_loop builds l
    rw [performAll, looping, ok_bind] at emitted
    obtain ⟨condition, buildsCondition, _, asks⟩ := counts_passes (R := R) range.min
    obtain ⟨arguments, modulates⟩ :=
      Modulates.nested .repeat_ .emit rfl rfl rfl buildsCondition [] rfl rfl
    rw [supplies.settled] at emitted
    have loops : Loops R l.plan.stages program (.mk body []) []
        ⟨l.bound, recorded, .mk (l.plan.stages ++
          [.apply (.mk .repeat_ program) [.mk body []] []]) []⟩ :=
      ⟨supplies.bound, rfl, supplies.runs, carry.plan, List.forall_mem_nil _⟩
    exact counted performed (loops.modulated (.cons modulates .nil) (fun m member =>
      List.mem_singleton.mp member ▸ .emitIf asks.plan) emitted)

end Supplies

/-- A builder that supplies traversers that know a scope. -/
structure Ready (scope : Scope) (extra : List String) (l : Live) : Prop
    extends Supplies (fun t => t.Knows scope.bindings extra) l where
  begun : scope.started = true → l.plan.stages ≠ []
  blank : scope.started = false → l.plan.stages = [] ∧ scope.bindings = [] ∧ extra = []

namespace Ready

variable {R S : Traverser → Prop}

theorem nothing_supplied : Supplies R .onGraph where
  bound := rfl
  settled := rfl
  runs _ _ nothing := .pure (nothing ▸ nofun)
  emitting _ attached := nomatch attached

theorem start : Ready .empty [] .onGraph :=
  ⟨nothing_supplied, nofun, fun _ => ⟨rfl, rfl, rfl⟩⟩

theorem pass (ready : Ready scope extra l) (started : scope.started = true) {after : Scope}
    (still : after.started = true) {more : List String}
    (passes : Passes (Known scope.bindings extra) operations (Known after.bindings more))
    (performed : performAll operations l = .ok l') : Ready after more l' := by
  refine ⟨ready.toSupplies.pass passes performed, fun _ => ?_, fun no => by rw [still] at no; cases no⟩
  obtain ⟨stages, builds, _⟩ := passes
  obtain ⟨program, done⟩ := builds l ready.settled
  cases Except.ok.inj (performed.symm.trans done)
  exact fun nothing => ready.begun started (List.append_eq_nil_iff.mp nothing).1

theorem forget (ready : Ready scope extra l) {fewer : List String}
    (included : ∀ name ∈ fewer, name ∈ extra) : Ready scope fewer l where
  toSupplies := ready.toSupplies.imp fun _ knows => knows.forget included
  begun := ready.begun
  blank no := by
    obtain ⟨empty, unbound, rfl⟩ := ready.blank no
    exact ⟨empty, unbound, List.eq_nil_iff_forall_not_mem.mpr fun name member =>
      List.not_mem_nil (included name member)⟩

theorem first (ready : Ready scope extra l) (blank : scope.started = false) {stage : Stage}
    (straight : stage.isLoop = false) (carry : StagesCarry (· = []) [stage] (Known [] []))
    (bound : l'.bound = true) (plan : l'.plan = .mk [stage] []) :
    Ready { scope with started := true } extra l' := by
  obtain ⟨_, unbound, rfl⟩ := ready.blank blank
  rw [← unbound] at carry
  refine ⟨.first straight carry bound plan, fun _ => ?_, nofun⟩
  rw [plan, Plan.stages]
  exact List.cons_ne_nil _ _

theorem rooted (ready : Ready scope extra l) (blank : scope.started = false) (step : Step)
    (stage : Stage) : (l.root step stage).plan = .mk [stage] [] := by
  obtain ⟨bound, program, ⟨stages, pending⟩⟩ := l
  cases ((ready.blank blank).1 : stages = [])
  cases (ready.settled : pending = [])
  rfl

theorem isRooting (ready : Ready scope extra l) : l.isRooting = !scope.started := by
  have settled : l.plan.pending.isEmpty = true := by rw [ready.settled]; rfl
  rw [Live.isRooting, ready.bound, Plan.isEmpty, settled, Bool.true_and, Bool.and_true]
  cases started : scope.started with
  | true => exact List.isEmpty_eq_false_iff.mpr (ready.begun started)
  | false =>
      rw [(ready.blank started).1]
      rfl

theorem knows_vertices {b : Bindings} {extra : List String} {stream : Stream}
    (all : All (fun t => t.Knows b extra) stream) :
    ∀ t ∈ stream, ∀ v : VertexRef, (t.split (.vertex v)).Knows b extra :=
  fun t member _ => (all t member).split rfl

theorem knows_start (ready : Ready scope extra l) (blank : scope.started = false) (v : VertexRef) :
    (Traverser.start (.vertex v)).Knows scope.bindings extra := by
  obtain ⟨_, unbound, rfl⟩ := ready.blank blank
  rw [unbound]
  exact .start rfl

theorem vertices_supply (ready : Ready scope extra l) (supplies : Supplies R l)
    (starts : scope.started = false → ∀ v : VertexRef, S (.start (.vertex v)))
    (moves : ∀ t, R t → ∀ v : VertexRef, S (t.split (.vertex v)))
    (performed : performAll [.vertices] l = .ok l') : Supplies S l' ∧ l'.plan.stages ≠ [] := by
  cases started : scope.started with
  | false =>
      have rooting : l.isRooting = true := by rw [ready.isRooting, started]; rfl
      simp only [performAll, performOne, Backend.vertices, rooting, if_true, ok_bind] at performed
      cases performed
      have plan := ready.rooted started (.mk .v []) .vertices
      refine ⟨.first rfl (fun engine stream _ => ?_) ready.bound plan, ?_⟩
      · rw [runStagesStrictly_one, runStages_one]
        refine Sound.graph.bind fun g _ => .pure fun t member => ?_
        obtain ⟨v, _, rfl⟩ := List.mem_map.mp member
        exact starts started v.ref
      · rw [plan, Plan.stages]
        exact List.cons_ne_nil _ _
  | true =>
      obtain ⟨program, done⟩ := Continues.vertices l ready.settled (ready.begun started)
      cases Except.ok.inj (performed.symm.trans done)
      refine ⟨supplies.extend (fun stage member => List.mem_singleton.mp member ▸ rfl)
        (.other (by decide) fun engine stream all =>
          Application.vertices_sound fun t member => moves t (all t member)) program, ?_⟩
      exact fun nothing => ready.begun started (List.append_eq_nil_iff.mp nothing).1

theorem vertices (ready : Ready scope extra l)
    (performed : performAll [.vertices] l = .ok l') :
    Ready { scope with started := true } extra l' := by
  obtain ⟨supplies, standing⟩ := ready.vertices_supply ready.toSupplies ready.knows_start
    (S := fun t => t.Knows scope.bindings extra) (fun _ knows _ => knows.split rfl) performed
  exact ⟨supplies, fun _ => standing, nofun⟩

theorem addVertex (ready : Ready scope extra l) (label : Option String)
    (performed : performAll [.addVertex label] l = .ok l') :
    Ready { scope with started := true } extra l' := by
  cases started : scope.started with
  | false =>
      have rooting : l.isRooting = true := by rw [ready.isRooting, started]; rfl
      simp only [performAll, performOne, Backend.addVertex, rooting, if_true, ok_bind] at performed
      cases performed
      refine ready.first started rfl (fun engine stream _ => ?_) ready.bound
        (ready.rooted started _ _)
      rw [runStagesStrictly_one, runStages_one]
      refine (Sound.createVertex label).bind ?_
      rintro _ ⟨ref, rfl⟩
      exact .pure (Count.one (.start rfl)).all
  | true =>
      have standing : l.isRooting = false := by rw [ready.isRooting, started]; rfl
      simp only [performAll, performOne, Backend.addVertex, standing, ok_bind] at performed
      obtain ⟨bound, program, ⟨stages, pending⟩⟩ := l
      cases (ready.settled : pending = [])
      have plain : StepKind.addV.IsPlain := ⟨rfl, by decide⟩
      have added := Plan.add_plain (Live.addVertexStep label) plain [] stages
      change Except.ok (Live.add _ _ _) = _ at performed
      rw [Live.add, added] at performed
      cases performed
      refine ⟨ready.toSupplies.extend (fun stage member => List.mem_singleton.mp member ▸ rfl)
        (.other (by decide) fun engine stream all =>
          (Application.addV_sound rfl (knows_vertices all)).imp fun _ count => count.all)
        (program ++ [Live.addVertexStep label]), fun _ => ?_, fun no => by cases no⟩
      exact fun nothing => ready.begun started (List.append_eq_nil_iff.mp nothing).1

theorem pathLoop (ready : Ready scope extra l) (started : scope.started = true) {inside : Ops}
    {range : PathLength} (small : ∀ n ∈ range.max, n < twoTo 32)
    (walks : Passes (Count 1 fun t => t.Knows scope.bindings extra) inside
      (Known scope.bindings extra))
    (performed : performAll (Cypher.pathLoop inside range) l = .ok l') :
    Ready scope extra l' := by
  obtain ⟨supplies, standing⟩ :=
    ready.toSupplies.pathLoop (Traverser.Knows.steady _ _) small walks performed
  exact ⟨supplies, fun _ => standing, fun no => by rw [started] at no; cases no⟩

end Ready

end Cypher

end PropertyGraph
