import Mathlib.Data.List.Forall2
import PropertyGraph.Plan.Basic

/-!
Operations that append stages, and those that configure the last one. What such operations add to a
plan does not depend on what the builder holds, so their stages can be put one after another and
into each other.
-/

namespace PropertyGraph

theorem bind_eq_ok {ε α β : Type} {first : Except ε α} {next : α → Except ε β} {b : β} :
    first >>= next = .ok b ↔ ∃ a, first = .ok a ∧ next a = .ok b := by
  cases first with
  | error fault => simp [bind, Except.bind]
  | ok a => simp [bind, Except.bind]

theorem map_eq_ok {ε α β : Type} {f : α → β} {result : Except ε α} {b : β} :
    f <$> result = .ok b ↔ ∃ a, result = .ok a ∧ f a = b := by
  cases result with
  | error fault => simp [Functor.map, Except.map]
  | ok a => simp [Functor.map, Except.map]

/-- Steps that become stages of their own: neither modulators nor loops, which take modulators that
wait. -/
structure StepKind.IsPlain (kind : StepKind) : Prop where
  unmodulating : kind.isModulator = false
  straight : kind ≠ .repeat_

namespace Plan

theorem add_plain (step : Step) (plain : step.kind.IsPlain) (children : List Plan)
    (stages : List Stage) :
    (mk stages []).add step children = .mk (stages ++ [.apply step children []]) [] := by
  simp [add, plain.unmodulating, plain.straight]

theorem attach_last (modulator : Modulator) {kind : StepKind} (stages : List Stage) (step : Step)
    (takes : modulates kind step.kind = true) (children : List Plan)
    (modulators : List Modulator) :
    attach? modulator kind (stages ++ [.apply step children modulators]) =
      some (stages ++ [.apply step children (modulators ++ [modulator])]) := by
  induction stages with
  | nil => simp [attach?, takes]
  | cons stage rest ih =>
      rw [List.cons_append, attach?, ih]
      · rfl
      · intro _ _ _ _ nothing
        simp at nothing

theorem attach_refused (modulator : Modulator) {kind : StepKind} (stages : List Stage) (step : Step)
    (refuses : modulates kind step.kind = false) (children : List Plan)
    (modulators : List Modulator) :
    attach? modulator kind (stages ++ [.apply step children modulators]) = none := by
  induction stages with
  | nil => simp [attach?, refuses]
  | cons stage rest ih =>
      rw [List.cons_append, attach?, ih]
      · rfl
      · intro _ _ _ _ nothing
        simp at nothing

theorem add_modulator (step : Step) (modulating : step.kind.isModulator = true)
    (children : List Plan) (stages : List Stage) (owner : Step)
    (takes : modulates step.kind owner.kind = true) (ownChildren : List Plan)
    (modulators : List Modulator) :
    (mk (stages ++ [.apply owner ownChildren modulators]) []).add step children =
      .mk (stages ++ [.apply owner ownChildren (modulators ++ [.mk step children false])]) [] := by
  simp [add, modulating, attach_last _ _ _ takes]

/-- A loop modulator after a stage that is no loop waits for the next one. -/
theorem add_waiting (step : Step) (modulating : step.kind.isModulator = true)
    (loops : step.kind.isLoopModulator = true) (children : List Plan) (stages : List Stage)
    (last : Step) (straight : last.kind ≠ .repeat_) (ownChildren : List Plan)
    (modulators : List Modulator) :
    (mk (stages ++ [.apply last ownChildren modulators]) []).add step children =
      .mk (stages ++ [.apply last ownChildren modulators]) [.mk step children true] := by
  have refuses : modulates step.kind last.kind = false := by simp [modulates, loops, straight]
  simp [add, modulating, loops, attach_refused _ _ _ refuses]

theorem settled_eq {plan : Plan} (settled : plan.pending = []) :
    plan = .mk plan.stages [] := by
  cases plan
  cases settled
  rfl

end Plan

namespace Script

theorem performAll_append {σ : Type} [Backend σ] (first second : List (Op Script)) (b : σ) :
    performAll (first ++ second) b = performAll first b >>= performAll second := by
  induction first generalizing b with
  | nil => rfl
  | cons op rest ih =>
      simp only [List.cons_append, performAll]
      cases performOne op b with
      | error fault => rfl
      | ok built => exact ih built

theorem performed_append {σ : Type} [Backend σ] {first second : List (Op Script)} {b c : σ} :
    performAll (first ++ second) b = .ok c ↔
      ∃ middle, performAll first b = .ok middle ∧ performAll second middle = .ok c := by
  rw [performAll_append, bind_eq_ok]

theorem performed_cons {σ : Type} [Backend σ] {op : Op Script} {rest : List (Op Script)}
    {b c : σ} : performAll (op :: rest) b = .ok c ↔
      ∃ middle, performAll [op] b = .ok middle ∧ performAll rest middle = .ok c := by
  rw [← List.singleton_append, performed_append]

/-- The operations are not refused on a fresh builder. -/
def Performs (operations : List (Op Script)) : Prop :=
  ∃ l : Live, performAll operations Backend.floating = .ok l

/-- The operations append these stages, whatever a builder holds. -/
def Builds (operations : List (Op Script)) (stages : List Stage) : Prop :=
  ∀ l : Live, l.plan.pending = [] → ∃ program,
    performAll operations l = .ok ⟨l.bound, program, .mk (l.plan.stages ++ stages) []⟩

/-- The script makes this plan on a fresh builder, and its stages on any other. -/
inductive Makes : Script → Plan → Prop
  | of {operations : List (Op Script)} {stages : List Stage} (builds : Builds operations stages) :
      Makes (.of operations) (.mk stages [])

namespace Performs

variable {operations : List (Op Script)}

theorem left {first second : List (Op Script)} (performs : Performs (first ++ second)) :
    Performs first := by
  obtain ⟨l, performed⟩ := performs
  obtain ⟨middle, before, _⟩ := performed_append.mp performed
  exact ⟨middle, before⟩

theorem performed_one {op : Op Script} (member : op ∈ operations) {b built : Live}
    (performed : performAll operations b = .ok built) :
    ∃ before after : Live, performOne op before = .ok after := by
  induction operations generalizing b with
  | nil => cases member
  | cons head rest ih =>
      rw [performAll, bind_eq_ok] at performed
      obtain ⟨next, first, others⟩ := performed
      rcases List.mem_cons.mp member with here | there
      · subst here
        exact ⟨b, next, first⟩
      · exact ih there others

/-- A part of operations that are not refused is not refused where it stands. -/
theorem part {part : List (Op Script)} (inside : part <:+: operations) {b built : Live}
    (performed : performAll operations b = .ok built) :
    ∃ before after : Live, performAll part before = .ok after := by
  obtain ⟨first, last, rfl⟩ := inside
  rw [List.append_assoc] at performed
  obtain ⟨before, _, performed⟩ := performed_append.mp performed
  obtain ⟨after, middle, _⟩ := performed_append.mp performed
  exact ⟨before, after, middle⟩

theorem resolved_one {slots : List (Slot Script)} {inside : List (Op Script)}
    (member : Slot.builder (.of inside) ∈ slots) {found : List (Slot Live)}
    (resolved : resolve slots = .ok found) : Performs inside := by
  induction slots generalizing found with
  | nil => cases member
  | cons slot rest ih =>
      rw [resolve, bind_eq_ok] at resolved
      obtain ⟨head, first, resolved⟩ := resolved
      rcases List.mem_cons.mp member with here | there
      · subst here
        rw [resolveOne, perform, bind_eq_ok] at first
        obtain ⟨built, performed, _⟩ := first
        exact ⟨built, performed⟩
      · obtain ⟨others, resolvedRest, _⟩ := bind_eq_ok.mp resolved
        exact ih there resolvedRest

/-- What stands inside operations that are not refused is not refused. -/
theorem within {b built : Live} (performed : performAll operations b = .ok built)
    {kind : StepKind} {slots : List (Slot Script)} {inner : kind.isEntry = false}
    (step : .append kind slots inner ∈ operations) {inside : List (Op Script)}
    (member : Slot.builder (.of inside) ∈ slots) : Performs inside := by
  obtain ⟨before, after, one⟩ := performed_one step performed
  rw [performOne, bind_eq_ok] at one
  obtain ⟨found, resolved, _⟩ := one
  exact resolved_one member resolved

theorem inside (performs : Performs operations) {kind : StepKind} {slots : List (Slot Script)}
    {inner : kind.isEntry = false} (step : .append kind slots inner ∈ operations)
    {inside : List (Op Script)} (member : Slot.builder (.of inside) ∈ slots) :
    Performs inside := by
  obtain ⟨l, performed⟩ := performs
  exact within performed step member

end Performs

namespace Builds

variable {operations more : List (Op Script)} {stages others : List Stage}

theorem nil : Builds [] [] := by
  intro l pending
  obtain ⟨bound, program, plan⟩ := l
  obtain ⟨stages, waiting⟩ := plan
  cases (pending : waiting = [])
  exact ⟨program, by simp [performAll, Plan.stages]⟩

theorem append (first : Builds operations stages) (second : Builds more others) :
    Builds (operations ++ more) (stages ++ others) := by
  intro l pending
  obtain ⟨_, performed⟩ := first l pending
  obtain ⟨program, performedMore⟩ := second ⟨l.bound, _, .mk (l.plan.stages ++ stages) []⟩ rfl
  refine ⟨program, ?_⟩
  rw [performAll_append, performed]
  simpa [Plan.stages, bind, Except.bind] using performedMore

theorem fresh (builds : Builds operations stages) : ∃ program,
    (performAll operations Backend.floating : Except BuildFault Live) =
      .ok ⟨false, program, .mk stages []⟩ := by
  simpa [Backend.floating, Plan.stages, Plan.empty] using builds ⟨false, [], .empty⟩ rfl

theorem held {script : Script} {plan : Plan} (makes : Makes script plan) {l : Live}
    (built : script.perform Backend.floating = .ok l) : l.plan = plan := by
  cases makes with
  | of builds =>
      obtain ⟨program, performed⟩ := builds.fresh
      cases Except.ok.inj (built.symm.trans performed)
      rfl

theorem step (kind : StepKind) (plain : kind.IsPlain) (inner : kind.isEntry = false)
    (slots : List (Slot Script)) {found : List (Slot Live)}
    (resolved : resolve slots = .ok found) :
    Builds [.append kind slots inner]
      [.apply (.mk kind (found.map Live.argument)) (found.filterMap Live.child?) []] := by
  intro l pending
  obtain ⟨bound, program, plan⟩ := l
  obtain ⟨stages, waiting⟩ := plan
  cases (pending : waiting = [])
  refine ⟨program ++ [.mk kind (found.map Live.argument)], ?_⟩
  have added := Plan.add_plain (.mk kind (found.map Live.argument)) plain
    (found.filterMap Live.child?) stages
  simp only [performAll, performOne, resolved]
  change Except.ok (Live.add _ _ _) = _
  rw [Live.add, added]
  rfl

/-- Scripts that build stages are resolved to builders that hold these stages. -/
theorem resolve_scripts {scripts : List Script} {plans : List Plan}
    (make : List.Forall₂ Makes scripts plans) :
    ∃ lives : List Live, resolve (scripts.map .builder) = .ok (lives.map Slot.builder) ∧
      lives.map Live.plan = plans := by
  induction make with
  | nil => exact ⟨[], rfl, rfl⟩
  | cons first _ ih =>
      cases first with
      | @of operations stages builds =>
          obtain ⟨lives, resolved, held⟩ := ih
          obtain ⟨program, performed⟩ := builds.fresh
          refine ⟨⟨false, program, .mk stages []⟩ :: lives, ?_, by simp [held]⟩
          simp only [List.map_cons, resolve, resolveOne, perform, performed, resolved]
          rfl

theorem nested (kind : StepKind) (plain : kind.IsPlain) (inner : kind.isEntry = false)
    {scripts : List Script} {plans : List Plan}
    (make : List.Forall₂ Makes scripts plans) :
    ∃ programs : List Program, Builds [.nested kind scripts inner]
      [.apply (.mk kind (programs.map .program)) plans []] := by
  obtain ⟨lives, resolved, held⟩ := resolve_scripts make
  refine ⟨lives.map Live.program, ?_⟩
  have built := step kind plain inner _ resolved
  have arguments : (lives.map Slot.builder).map Live.argument =
      (lives.map Live.program).map Argument.program := by
    simp [Function.comp_def, Live.argument]
  have children : (lives.map Slot.builder).filterMap Live.child? = plans := by
    rw [← held, List.filterMap_map]
    simp [Function.comp_def, Live.child?]
  rwa [arguments, children] at built

theorem resolve_labels (keys : List String) :
    resolve (keys.map Slot.label) = .ok (keys.map (Slot.label (α := Live))) := by
  induction keys with
  | nil => rfl
  | cons key rest ih =>
      simp only [List.map_cons, resolve, ih]
      rfl

theorem labelled (kind : StepKind) (plain : kind.IsPlain) (inner : kind.isEntry = false)
    (keys : List String) :
    Builds [.labelled kind keys inner] [.apply (.mk kind (keys.map .label)) [] []] := by
  have built := step kind plain inner _ (resolve_labels keys)
  have arguments : (keys.map (Slot.label (α := Live))).map Live.argument =
      keys.map Argument.label := by
    simp [Function.comp_def, Live.argument, Slot.label]
  have children : (keys.map (Slot.label (α := Live))).filterMap Live.child? = [] := by
    simp [Function.comp_def, Live.child?, Slot.label, List.filterMap_map]
  rwa [arguments, children] at built

end Builds

end Script

namespace Script

/-- The operation gives a modulator to a last stage of a kind. -/
def Modulates (owner : StepKind) (op : Op Script) (modulator : Modulator) : Prop :=
  ∀ bound program stages arguments children modulators, ∃ after,
    performOne op (⟨bound, program,
        .mk (stages ++ [.apply (.mk owner arguments) children modulators]) []⟩ : Live) =
      .ok ⟨bound, after,
        .mk (stages ++ [.apply (.mk owner arguments) children (modulators ++ [modulator])]) []⟩

namespace Modulates

variable {owner kind : StepKind}

theorem step (modulating : kind.isModulator = true) (takes : Plan.modulates kind owner = true)
    (inner : kind.isEntry = false) {slots : List (Slot Script)} {found : List (Slot Live)}
    (resolved : resolve slots = .ok found) :
    Modulates owner (.append kind slots inner)
      (.mk (.mk kind (found.map Live.argument)) (found.filterMap Live.child?) false) := by
  intro bound program stages arguments children modulators
  refine ⟨program ++ [.mk kind (found.map Live.argument)], ?_⟩
  have added := Plan.add_modulator (.mk kind (found.map Live.argument)) modulating
    (found.filterMap Live.child?) stages (.mk owner arguments) takes children modulators
  simp only [performOne, resolved]
  change Except.ok (Live.add _ _ _) = _
  rw [Live.add, added]

theorem nested (owner kind : StepKind) (modulating : kind.isModulator = true)
    (takes : Plan.modulates kind owner = true) (inner : kind.isEntry = false)
    {inside : List (Op Script)} {stages : List Stage} (builds : Builds inside stages)
    (slots : List (Slot Script)) {found : List (Slot Live)}
    (resolved : resolve slots = .ok found) (childless : found.filterMap Live.child? = []) :
    ∃ arguments, Modulates owner (.append kind (.builder (.of inside) :: slots) inner)
      (.mk (.mk kind arguments) [.mk stages []] false) := by
  obtain ⟨program, performed⟩ := builds.fresh
  have both : resolve (.builder (.of inside) :: slots) =
      .ok (.builder (⟨false, program, .mk stages []⟩ : Live) :: found) := by
    simp only [resolve, resolveOne, perform, performed, resolved]
    rfl
  have built := step modulating takes inner both
  rw [List.filterMap_cons, Live.child?, childless] at built
  exact ⟨_, built⟩

/-- The modulator is a `by` for what a plan computes. -/
def IsByFor (modulator : Modulator) (plan : Plan) : Prop :=
  ∃ arguments, modulator = .mk (.mk .by_ arguments) [plan] false

theorem bys {scripts : List Script} {plans : List Plan} (make : List.Forall₂ Makes scripts plans)
    (owner : StepKind) : ∃ modulators,
      List.Forall₂ (Modulates owner) (scripts.map fun script => .nested .by_ [script]) modulators ∧
        List.Forall₂ IsByFor modulators plans := by
  induction make with
  | nil => exact ⟨[], .nil, .nil⟩
  | cons first _ ih =>
      obtain ⟨builds⟩ := first
      obtain ⟨arguments, modulates⟩ := nested owner .by_ rfl rfl rfl builds [] rfl rfl
      obtain ⟨modulators, modulate, by_⟩ := ih
      exact ⟨_ :: modulators, .cons modulates modulate, .cons ⟨arguments, rfl⟩ by_⟩

theorem all {operations : List (Op Script)} {given : List Modulator}
    (modulate : List.Forall₂ (Modulates owner) operations given)
    (bound : Bool) (program : Program) (stages : List Stage) (arguments : List Argument)
    (children : List Plan) (modulators : List Modulator) :
    ∃ after, performAll operations (⟨bound, program,
        .mk (stages ++ [.apply (.mk owner arguments) children modulators]) []⟩ : Live) =
      .ok ⟨bound, after,
        .mk (stages ++ [.apply (.mk owner arguments) children (modulators ++ given)]) []⟩ := by
  induction modulate generalizing program modulators with
  | nil => exact ⟨program, by simp [performAll]⟩
  | @cons op modulator operations given first _ ih =>
      obtain ⟨middle, one⟩ := first bound program stages arguments children modulators
      obtain ⟨after, others⟩ := ih middle (modulators ++ [modulator])
      refine ⟨after, ?_⟩
      rw [performAll, one]
      rw [List.append_assoc] at others
      exact others

end Modulates

theorem Builds.modulated {op : Op Script} {kind : StepKind} {arguments : List Argument}
    {children : List Plan} (builds : Builds [op] [.apply (.mk kind arguments) children []])
    {operations : List (Op Script)} {modulators : List Modulator}
    (modulate : List.Forall₂ (Modulates kind) operations modulators) :
    Builds (op :: operations) [.apply (.mk kind arguments) children modulators] := by
  intro l pending
  obtain ⟨program, performed⟩ := builds l pending
  obtain ⟨after, done⟩ :=
    Modulates.all modulate l.bound program l.plan.stages arguments children []
  refine ⟨after, ?_⟩
  rw [← List.singleton_append, performAll_append, performed]
  exact done

theorem Builds.project {keys : List String} (named : keys ≠ []) {scripts : List Script}
    {plans : List Plan} (make : List.Forall₂ Makes scripts plans) : ∃ modulators,
      Builds (.project keys :: scripts.map fun script => .nested .by_ [script])
          [.apply (.mk .project (keys.map .label)) [] modulators] ∧
        List.Forall₂ Modulates.IsByFor modulators plans := by
  obtain ⟨modulators, modulate, by_⟩ := Modulates.bys make .project
  have filled : Op.project (α := Script) keys = .labelled .project keys := by
    simp [Op.project, named]
  rw [filled]
  exact ⟨modulators, (labelled .project ⟨rfl, by decide⟩ rfl keys).modulated modulate, by_⟩

end Script

end PropertyGraph
