import PropertyGraph.Builder.Backend
import PropertyGraph.Proofs.Builder.Parity
import PropertyGraph.Proofs.Builder.Stages

/-!
The kinds of all steps of a program, at any depth. What a script records has the kinds of the script
itself, and the plan of a program uses no others, among its modulators and its start steps either.
-/

namespace PropertyGraph

mutual

def Argument.kinds : Argument → List StepKind
  | .program steps => Step.stepsKinds steps
  | _ => []

def Argument.argumentsKinds : List Argument → List StepKind
  | [] => []
  | argument :: rest => argument.kinds ++ Argument.argumentsKinds rest

def Step.kinds : Step → List StepKind
  | .mk kind arguments => kind :: Argument.argumentsKinds arguments

def Step.stepsKinds : List Step → List StepKind
  | [] => []
  | step :: rest => step.kinds ++ Step.stepsKinds rest

end

def Program.kinds (p : Program) : List StepKind := Step.stepsKinds p

@[simp]
theorem Step.stepsKinds_append (first second : List Step) :
    Step.stepsKinds (first ++ second) = Step.stepsKinds first ++ Step.stepsKinds second := by
  induction first with
  | nil => rfl
  | cons step rest ih => rw [List.cons_append, stepsKinds, stepsKinds, ih, List.append_assoc]

theorem Argument.kinds_flat {a : Argument} (flat : a.program? = none) : a.kinds = [] := by
  cases a <;> first | rfl | cases flat

namespace Script

mutual

def kinds : Script → List StepKind
  | .of operations => opsKinds operations

def opsKinds : List (Op Script) → List StepKind
  | [] => []
  | op :: rest => opKinds op ++ opsKinds rest

def opKinds : Op Script → List StepKind
  | .vertices => [.v]
  | .edges => [.e]
  | .addVertex _ => [.addV]
  | .append kind slots _ => kind :: slotsKinds slots
  | .nothing | .refuse _ => []

def slotsKinds : List (Slot Script) → List StepKind
  | [] => []
  | slot :: rest => slotKinds slot ++ slotsKinds rest

def slotKinds : Slot Script → List StepKind
  | .argument _ _ => []
  | .builder script => script.kinds

end

mutual

theorem perform_kinds : (script : Script) → {before after : Recorder} →
    script.perform before = .ok after → after.program.kinds = before.program.kinds ++ script.kinds
  | .of operations, _, _, performs => performAll_kinds operations performs
termination_by structural script => script

theorem performAll_kinds : (operations : List (Op Script)) → {before after : Recorder} →
    performAll operations before = .ok after →
      after.program.kinds = before.program.kinds ++ opsKinds operations
  | [], before, _, performs => by
      cases performs
      exact (List.append_nil _).symm
  | op :: rest, _, _, performs => by
      obtain ⟨between, first, later⟩ := bind_eq_ok.mp performs
      rw [performAll_kinds rest later, performOne_kinds op first, opsKinds, List.append_assoc]
termination_by structural operations => operations

theorem performOne_kinds : (op : Op Script) → {before after : Recorder} →
    performOne op before = .ok after → after.program.kinds = before.program.kinds ++ opKinds op
  | .vertices, _, _, performs => by
      cases performs
      exact Step.stepsKinds_append _ _
  | .edges, before, _, performs => by
      simp only [performOne, Backend.edges] at performs
      split at performs
      · cases performs
        exact Step.stepsKinds_append _ _
      · cases performs
  | .addVertex label, _, _, performs => by
      cases performs
      refine (Step.stepsKinds_append _ _).trans ?_
      cases label <;> rfl
  | .append kind slots _, _, _, performs => by
      obtain ⟨found, resolves, appended⟩ := bind_eq_ok.mp performs
      cases appended
      refine (Step.stepsKinds_append _ _).trans (congrArg (_ ++ ·) ?_)
      rw [Step.stepsKinds, Step.kinds, Step.stepsKinds, List.append_nil, opKinds,
        resolve_kinds slots resolves]
  | .nothing, _, _, performs => by
      cases performs
      exact (List.append_nil _).symm
  | .refuse _, _, _, performs => nomatch performs
termination_by structural op => op

theorem resolve_kinds : (slots : List (Slot Script)) → {found : List (Slot Recorder)} →
    resolve slots = .ok found →
      Argument.argumentsKinds (found.map Recorder.argument) = slotsKinds slots
  | [], _, resolves => by
      cases resolves
      rfl
  | slot :: rest, _, resolves => by
      obtain ⟨first, here, resolves⟩ := bind_eq_ok.mp resolves
      obtain ⟨others, there, same⟩ := bind_eq_ok.mp resolves
      cases same
      rw [List.map_cons, Argument.argumentsKinds, resolveOne_kinds slot here,
        resolve_kinds rest there, slotsKinds]
termination_by structural slots => slots

theorem resolveOne_kinds : (slot : Slot Script) → {found : Slot Recorder} →
    resolveOne slot = .ok found → (Recorder.argument found).kinds = slotKinds slot
  | .argument a flat, _, resolves => by
      cases resolves
      exact Argument.kinds_flat flat
  | .builder script, _, resolves => by
      obtain ⟨built, performs, same⟩ := bind_eq_ok.mp resolves
      cases same
      exact perform_kinds script performs
termination_by structural slot => slot

end

end Script

namespace Plan

variable {P : StepKind → Prop}

mutual

/-- All steps of a plan are of such kinds. -/
def Uses (P : StepKind → Prop) : Plan → Prop
  | .mk stages pending => UsesStages P stages ∧ UsesModulators P pending

def UsesStages (P : StepKind → Prop) : List Stage → Prop
  | [] => True
  | stage :: rest => UsesStage P stage ∧ UsesStages P rest

def UsesStage (P : StepKind → Prop) : Stage → Prop
  | .vertices => P .v
  | .edges => P .e
  | .addVertex _ => P .addV
  | .apply step children modulators => P step.kind ∧ UsesAll P children ∧ UsesModulators P modulators

def UsesAll (P : StepKind → Prop) : List Plan → Prop
  | [] => True
  | plan :: rest => Uses P plan ∧ UsesAll P rest

def UsesModulators (P : StepKind → Prop) : List Modulator → Prop
  | [] => True
  | modulator :: rest => UsesModulator P modulator ∧ UsesModulators P rest

def UsesModulator (P : StepKind → Prop) : Modulator → Prop
  | .mk step children _ => P step.kind ∧ UsesAll P children

end

mutual

theorem uses_of_all (all : ∀ kind, P kind) : (plan : Plan) → plan.Uses P
  | .mk stages pending => ⟨usesStages_of_all all stages, usesModulators_of_all all pending⟩
termination_by structural plan => plan

theorem usesStages_of_all (all : ∀ kind, P kind) : (stages : List Stage) → UsesStages P stages
  | [] => trivial
  | stage :: rest => ⟨usesStage_of_all all stage, usesStages_of_all all rest⟩
termination_by structural stages => stages

theorem usesStage_of_all (all : ∀ kind, P kind) : (stage : Stage) → UsesStage P stage
  | .vertices => all .v
  | .edges => all .e
  | .addVertex _ => all .addV
  | .apply step children modulators =>
      ⟨all step.kind, usesAll_of_all all children, usesModulators_of_all all modulators⟩
termination_by structural stage => stage

theorem usesAll_of_all (all : ∀ kind, P kind) : (plans : List Plan) → UsesAll P plans
  | [] => trivial
  | plan :: rest => ⟨uses_of_all all plan, usesAll_of_all all rest⟩
termination_by structural plans => plans

theorem usesModulators_of_all (all : ∀ kind, P kind) : (modulators : List Modulator) →
    UsesModulators P modulators
  | [] => trivial
  | .mk step children _ :: rest =>
      ⟨⟨all step.kind, usesAll_of_all all children⟩, usesModulators_of_all all rest⟩
termination_by structural modulators => modulators

end

theorem empty_uses : Uses P empty := ⟨trivial, trivial⟩

theorem usesStages_append {first second : List Stage} :
    UsesStages P (first ++ second) ↔ UsesStages P first ∧ UsesStages P second := by
  induction first with
  | nil => simp [UsesStages]
  | cons stage rest ih => simp [UsesStages, ih, and_assoc]

theorem usesAll_append {first second : List Plan} :
    UsesAll P (first ++ second) ↔ UsesAll P first ∧ UsesAll P second := by
  induction first with
  | nil => simp [UsesAll]
  | cons plan rest ih => simp [UsesAll, ih, and_assoc]

theorem usesModulators_append {first second : List Modulator} :
    UsesModulators P (first ++ second) ↔ UsesModulators P first ∧ UsesModulators P second := by
  induction first with
  | nil => simp [UsesModulators]
  | cons modulator rest ih => simp [UsesModulators, ih, and_assoc]

theorem attached_uses {modulator : Modulator} (own : UsesModulator P modulator) {kind : StepKind}
    {stages found : List Stage} (attaches : attach? modulator kind stages = some found)
    (before : UsesStages P stages) : UsesStages P found := by
  fun_induction attach? modulator kind stages generalizing found with
  | case1 => cases attaches
  | case2 step children modulators takes =>
      cases attaches
      obtain ⟨⟨kind, inside, modulated⟩, _⟩ := before
      exact ⟨⟨kind, inside, usesModulators_append.mpr ⟨modulated, own, trivial⟩⟩, trivial⟩
  | case3 => cases attaches
  | case4 stage rest _ ih =>
      obtain ⟨others, attachesRest, rfl⟩ := Option.map_eq_some_iff.mp attaches
      exact ⟨before.1, ih attachesRest before.2⟩

theorem rooted_uses {stage : Stage} {plan : Plan} (own : UsesStage P stage) (before : Uses P plan) :
    Uses P (plan.addStage stage) := by
  obtain ⟨stages, pending⟩ := plan
  exact ⟨usesStages_append.mpr ⟨before.1, own, trivial⟩, before.2⟩

theorem added_uses {step : Step} {children : List Plan} {plan : Plan} (own : P step.kind)
    (inside : UsesAll P children) (before : Uses P plan) : Uses P (plan.add step children) := by
  obtain ⟨stages, pending⟩ := plan
  obtain ⟨staged, waiting⟩ := before
  have alone (modulators : List Modulator) (modulated : UsesModulators P modulators) :
      UsesStages P (stages ++ [.apply step children modulators]) :=
    usesStages_append.mpr ⟨staged, ⟨own, inside, modulated⟩, trivial⟩
  unfold Plan.add
  dsimp only
  split
  · split
    · next found attaches =>
        have modulator : UsesModulator P (.mk step children false) := ⟨own, inside⟩
        exact ⟨attached_uses modulator attaches staged, waiting⟩
    · split
      · have modulator : UsesModulator P (.mk step children true) := ⟨own, inside⟩
        exact ⟨staged, usesModulators_append.mpr ⟨waiting, modulator, trivial⟩⟩
      · exact ⟨alone [] trivial, waiting⟩
  · split
    · exact ⟨alone pending waiting, trivial⟩
    · exact ⟨alone [] trivial, waiting⟩

mutual

theorem extend_uses : (steps : List Step) → (∀ kind ∈ Step.stepsKinds steps, P kind) →
    {bound : Bool} → {before after : Plan} → Uses P before →
      extend bound steps before = .ok after → Uses P after
  | [], _, _, _, _, uses, extends_ => by
      cases extends_
      exact uses
  | step :: rest, kinds, _, _, _, uses, extends_ => by
      obtain ⟨own, others⟩ := List.forall_mem_append.mp kinds
      obtain ⟨between, first, later⟩ := bind_eq_ok.mp extends_
      exact extend_uses rest others (extendOne_uses step own uses first) later
termination_by structural steps => steps

theorem extendOne_uses : (step : Step) → (∀ kind ∈ step.kinds, P kind) → {rooting : Bool} →
    {before after : Plan} → Uses P before → extendOne rooting step before = .ok after → Uses P after
  | .mk kind arguments, kinds, rooting, before, _, uses, extends_ => by
      obtain ⟨own, inside⟩ := List.forall_mem_cons.mp kinds
      unfold extendOne at extends_
      split at extends_
      · next root =>
          cases extends_
          obtain rfl : kind = .v := eq_of_beq (Bool.and_eq_true_iff.mp root).2
          have start : UsesStage P .vertices := own
          exact rooted_uses start uses
      split at extends_
      · next root =>
          cases extends_
          obtain rfl : kind = .e := eq_of_beq (Bool.and_eq_true_iff.mp root).2
          have start : UsesStage P .edges := own
          exact rooted_uses start uses
      split at extends_
      · cases extends_
      split at extends_
      · next root =>
          cases extends_
          obtain rfl : kind = .addV := eq_of_beq (Bool.and_eq_true_iff.mp root).2
          have start : UsesStage P (.addVertex (startLabel arguments)) := own
          exact rooted_uses start uses
      · obtain ⟨children, found, same⟩ := bind_eq_ok.mp extends_
        cases same
        exact added_uses own (childrenOf_uses arguments inside found) uses
termination_by structural step => step

theorem childrenOf_uses : (arguments : List Argument) →
    (∀ kind ∈ Argument.argumentsKinds arguments, P kind) → {children : List Plan} →
      childrenOf arguments = .ok children → UsesAll P children
  | [], _, _, found => by
      cases found
      trivial
  | argument :: rest, kinds, _, found => by
      obtain ⟨own, others⟩ := List.forall_mem_append.mp kinds
      obtain ⟨first, here, found⟩ := bind_eq_ok.mp found
      obtain ⟨more, there, same⟩ := bind_eq_ok.mp found
      cases same
      exact usesAll_append.mpr ⟨childOf_uses argument own here, childrenOf_uses rest others there⟩
termination_by structural arguments => arguments

theorem childOf_uses : (argument : Argument) → (∀ kind ∈ argument.kinds, P kind) →
    {child : Option Plan} → childOf argument = .ok child → UsesAll P child.toList
  | .program steps, kinds, _, found => by
      obtain ⟨plan, extends_, same⟩ := bind_eq_ok.mp found
      cases same
      exact ⟨extend_uses steps kinds empty_uses extends_, trivial⟩
  | .literal _, _, _, found | .predicate _, _, _, found | .label _, _, _, found
  | .scope _, _, _, found | .order _, _, _, found | .pop _, _, _, found | .column _, _, _, found
  | .cardinality _, _, _, found | .token _, _, _, found | .function _, _, _, found => by
      cases found
      trivial
termination_by structural argument => argument

end

theorem ofProgram?_uses {p : Program} (kinds : ∀ kind ∈ p.kinds, P kind) {bound : Bool} {plan : Plan}
    (arranged : ofProgram? bound p = .ok plan) : plan.Uses P :=
  extend_uses p kinds empty_uses arranged

end Plan

end PropertyGraph
