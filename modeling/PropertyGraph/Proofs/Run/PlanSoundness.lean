import PropertyGraph.Proofs.Run.Expansion
import PropertyGraph.Proofs.Run.Nesting

/-!
Plans that lead streams of one kind to streams of another, in strict runs as in plain ones, and the
modulators that serve their steps.
-/

namespace PropertyGraph

open Exec

variable {Pre Mid Post : Stream → Prop} {R : Traverser → Prop}

namespace Plan

/-- Strict runs and plain ones lead such streams to the same such stream. -/
def Carries (Pre : Stream → Prop) (plan : Plan) (Post : Stream → Prop) : Prop :=
  ∀ engine stream, Pre stream →
    Exec.Sound Post (plan.runStrictly engine stream) (plan.run engine stream)

def StagesCarry (Pre : Stream → Prop) (stages : List Stage) (Post : Stream → Prop) : Prop :=
  ∀ engine stream, Pre stream →
    Exec.Sound Post (runStagesStrictly engine stages stream) (runStages engine stages stream)

namespace StagesCarry

variable {first second : List Stage}

theorem plan (carry : StagesCarry Pre first Post) : Carries Pre (.mk first []) Post := carry

theorem nil (implies : ∀ stream, Pre stream → Post stream) : StagesCarry Pre [] Post :=
  fun _ stream holds => .pure (implies stream holds)

theorem append (carry : StagesCarry Pre first Mid) (next : StagesCarry Mid second Post) :
    StagesCarry Pre (first ++ second) Post := by
  intro engine stream holds
  rw [runStagesStrictly_append, runStages_append]
  exact (carry engine stream holds).bind fun middle reached => next engine middle reached

theorem imp {Pre' Post' : Stream → Prop} (carry : StagesCarry Pre first Post)
    (before : ∀ stream, Pre' stream → Pre stream)
    (after : ∀ stream, Post stream → Post' stream) : StagesCarry Pre' first Post' :=
  fun engine stream holds => (carry engine stream (before stream holds)).imp after

theorem other {kind : StepKind} (apart : kind ≠ .select) {arguments : List Argument}
    {children : List Plan} {modulators : List Modulator}
    (sound : ∀ engine stream, Pre stream → Exec.Sound Post
      (Application.perform engine ⟨kind, arguments, strictChildren engine children,
        strictModulations engine modulators⟩ stream)
      (Application.perform engine ⟨kind, arguments, runChildren engine children,
        modulations engine modulators⟩ stream)) :
    StagesCarry Pre [.apply (.mk kind arguments) children modulators] Post := by
  intro engine stream holds
  rw [runStagesStrictly_one, runStages_one, runStageStrictly,
    Application.performStrictly_other engine apart]
  exact sound engine stream holds

theorem select {arguments : List Argument}
    (sound : ∀ stream, Pre stream → Exec.Sound (Count stream.length R)
      (Application.select ⟨.select, arguments, [], []⟩ stream)
      (Application.select ⟨.select, arguments, [], []⟩ stream))
    (after : ∀ stream out, Pre stream → Count stream.length R out → Post out) :
    StagesCarry Pre [.bare .select arguments] Post := by
  intro engine stream holds
  rw [runStagesStrictly_one, runStages_one]
  have strict := Application.performStrictly_sound (a := ⟨.select, arguments, [], []⟩) engine
    (sound stream holds)
  exact strict.imp fun out count => after stream out holds count

end StagesCarry

theorem Carries.child {plan : Plan} (carries : plan.Carries Pre Post) (engine : Engine) :
    Child.Sound Pre Post ⟨plan.runStrictly engine, plan.isReducing⟩
      ⟨plan.run engine, plan.isReducing⟩ :=
  ⟨rfl, carries engine⟩

theorem children_sound {plans : List Plan} (carry : ∀ plan ∈ plans, plan.Carries Pre Post)
    (engine : Engine) :
    List.Forall₂ (Child.Sound Pre Post) (strictChildren engine plans)
      (runChildren engine plans) := by
  induction plans with
  | nil => exact .nil
  | cons plan rest ih =>
      exact .cons ((carry plan List.mem_cons_self).child engine)
        (ih fun other later => carry other (List.mem_cons_of_mem _ later))

theorem strictChildren_length (engine : Engine) (plans : List Plan) :
    (strictChildren engine plans).length = plans.length := by
  induction plans with
  | nil => rfl
  | cons plan rest ih => exact congrArg (· + 1) ih

theorem strictModulations_eq (engine : Engine) (modulators : List Modulator) :
    strictModulations engine modulators = modulators.map (strictModulation engine) := by
  induction modulators with
  | nil => rfl
  | cons modulator rest ih => rw [strictModulations, ih, List.map_cons]

theorem modulations_eq (engine : Engine) (modulators : List Modulator) :
    modulations engine modulators = modulators.map (modulation engine) := by
  induction modulators with
  | nil => rfl
  | cons modulator rest ih => rw [modulations, ih, List.map_cons]

end Plan

def Modulator.kind : Modulator → StepKind
  | .mk step _ _ => step.kind

/-- The last modulator of a kind. -/
def Modulator.last? (kind : StepKind) (modulators : List Modulator) : Option Modulator :=
  (modulators.filter (·.kind == kind)).getLast?

theorem Modulator.last?_mem {kind : StepKind} {modulators : List Modulator} {m : Modulator}
    (found : last? kind modulators = some m) : m ∈ modulators ∧ m.kind = kind := by
  obtain ⟨member, same⟩ := List.mem_filter.mp (List.mem_of_getLast? found)
  exact ⟨member, beq_iff_eq.mp same⟩

namespace Application

open Plan

variable {engine : Engine} {modulators : List Modulator}

theorem last?_strict (kind : StepKind) (arguments : List Argument) (children : List Child)
    (asked : StepKind) :
    last? ⟨kind, arguments, children, Plan.strictModulations engine modulators⟩ asked =
      (Modulator.last? asked modulators).map (strictModulation engine) := by
  have kinds (m : Modulator) : (strictModulation engine m).kind = m.kind := by cases m; rfl
  simp [last?, modulationsOf, strictModulations_eq, List.filter_map, Modulator.last?,
    List.getLast?_map, Function.comp_def, kinds]

theorem last?_plain (kind : StepKind) (arguments : List Argument) (children : List Child)
    (asked : StepKind) :
    last? ⟨kind, arguments, children, Plan.modulations engine modulators⟩ asked =
      (Modulator.last? asked modulators).map (modulation engine) := by
  have kinds (m : Modulator) : (modulation engine m).kind = m.kind := by cases m; rfl
  simp [last?, modulationsOf, modulations_eq, List.filter_map, Modulator.last?,
    List.getLast?_map, Function.comp_def, kinds]

/-- A `by` whose sub-traversal leads one traverser to one value. -/
inductive IsBy (R : Traverser → Prop) : Modulator → Prop
  | mk {arguments : List Argument} {plan : Plan} {before : Bool}
      (carries : plan.Carries (Count 1 R) (Count 1 fun _ => True)) :
      IsBy R (.mk (.mk .by_ arguments) [plan] before)

theorem bys_sound (serve : ∀ m ∈ modulators, IsBy R m) (kind : StepKind)
    (arguments : List Argument) (children children' : List Child) :
    List.Forall₂ (Child.Serves R)
      (bys ⟨kind, arguments, children, Plan.strictModulations engine modulators⟩)
      (bys ⟨kind, arguments, children', Plan.modulations engine modulators⟩) := by
  induction modulators with
  | nil => exact .nil
  | cons m rest ih =>
      have others := ih fun other later => serve other (List.mem_cons_of_mem _ later)
      obtain ⟨carries⟩ := serve m List.mem_cons_self
      exact .cons (.some (carries.child engine)) others

theorem criteria_sound (serve : ∀ m ∈ modulators, IsBy R m) (kind : StepKind)
    (arguments : List Argument) (children children' : List Child) :
    List.Forall₂ (Criterion.Sound R)
      (criteria ⟨kind, arguments, children, Plan.strictModulations engine modulators⟩)
      (criteria ⟨kind, arguments, children', Plan.modulations engine modulators⟩) := by
  have listed : List.Forall₂ (Criterion.Sound R)
      ((modulationsOf ⟨kind, arguments, children,
        Plan.strictModulations engine modulators⟩ .by_).map criterion)
      ((modulationsOf ⟨kind, arguments, children', Plan.modulations engine modulators⟩ .by_).map
        criterion) := by
    induction modulators with
    | nil => exact .nil
    | cons m rest ih =>
        have others := ih fun other later => serve other (List.mem_cons_of_mem _ later)
        obtain ⟨carries⟩ := serve m List.mem_cons_self
        exact .cons ⟨.some (carries.child engine), rfl⟩ others
  unfold criteria
  generalize List.map criterion _ = cs at listed ⊢
  generalize List.map criterion _ = ds at listed ⊢
  cases listed with
  | nil => exact .cons ⟨.none, rfl⟩ .nil
  | cons first rest => exact .cons first rest

/-- Modulators of a loop that say how often it runs at most, and what it lets out. -/
inductive IsLoopModulator (R : Traverser → Prop) : Modulator → Prop
  | emit {arguments : List Argument} {before : Bool} :
      IsLoopModulator R (.mk (.mk .emit arguments) [] before)
  | emitIf {arguments : List Argument} {plan : Plan} {before : Bool}
      (carries : plan.Carries (Count 1 R) fun _ => True) :
      IsLoopModulator R (.mk (.mk .emit arguments) [plan] before)
  | times {n : Int64} {before : Bool} (small : n.toInt < twoTo 32) :
      IsLoopModulator R (.mk (.mk .times [.literal (.int n)]) [] before)

theorem repeat_carries {program : List Argument} {body : Plan}
    (carries : body.Carries (Count 1 R) (All R))
    (modulate : ∀ m ∈ modulators, IsLoopModulator R m) (steady : Loop.Steady R) :
    StagesCarry (All R) [.apply (.mk .repeat_ program) [body] modulators] (All R) := by
  refine .other (by decide) fun engine stream all => ?_
  have endless : Modulator.last? .until_ modulators = none := by
    cases found : Modulator.last? .until_ modulators with
    | none => rfl
    | some m =>
        obtain ⟨member, same⟩ := Modulator.last?_mem found
        cases modulate m member <;> cases same
  obtain ⟨times, counts, counts'⟩ : ∃ times,
      loopTimes ⟨.repeat_, program, strictChildren engine [body],
        Plan.strictModulations engine modulators⟩ = pure times ∧
      loopTimes ⟨.repeat_, program, runChildren engine [body],
        Plan.modulations engine modulators⟩ = pure times := by
    unfold loopTimes
    rw [last?_strict, last?_plain]
    cases found : Modulator.last? .times modulators with
    | none => exact ⟨none, rfl, rfl⟩
    | some m =>
        obtain ⟨member, same⟩ := Modulator.last?_mem found
        cases modulate m member with
        | emit => cases same
        | emitIf carries => cases same
        | @times n before small =>
            exact ⟨some n.toInt.toNat, if_pos small, if_pos small⟩
  refine repeat_sound engine.loopLimit rfl rfl (carries.child engine) counts counts' ?_ ?_ ?_ steady
    all
  · rw [last?_strict, endless, Option.map_none]
  · rw [last?_plain, endless, Option.map_none]
  · rw [last?_strict, last?_plain]
    cases found : Modulator.last? .emit modulators with
    | none => exact .none
    | some m =>
        obtain ⟨member, same⟩ := Modulator.last?_mem found
        cases modulate m member with
        | emit => exact .some ⟨.none, rfl⟩
        | emitIf carries => exact .some ⟨.some (carries.child engine), rfl⟩
        | times small => cases same

end Application

end PropertyGraph
