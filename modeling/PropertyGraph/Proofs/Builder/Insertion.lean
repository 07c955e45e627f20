import PropertyGraph.Proofs.Builder.Admission
import PropertyGraph.Proofs.Builder.Parity

/-!
The same operations on two builders. What they make does not depend on the stages that are there,
unless the first of them is a modulator: then it depends on whether the last stage takes it.
-/

namespace PropertyGraph

/-- The operation makes a stage of its own, or is refused by every builder that holds one. -/
def Op.stands {α : Type} : Op α → Bool
  | .append kind _ _ => !kind.isModulator
  | .nothing => false
  | .vertices | .edges | .addVertex _ | .refuse _ => true

/-- The operations do not begin with a modulator. -/
def Op.Open {α : Type} (operations : List (Op α)) : Prop :=
  ∀ op ∈ operations.head?, op.stands = true

theorem Op.Open.append {α : Type} {first second : List (Op α)} (opens : Op.Open first)
    (next : Op.Open second) : Op.Open (first ++ second) := by
  cases first with
  | nil => exact next
  | cons op rest => exact opens

/-- What the first operation is: an emission with its loop, or no modulator. -/
def Op.Opening {α : Type} (emits : Bool) (operations : List (Op α)) : Prop :=
  match emits with
  | true => ∃ loop more, loop.stands = true ∧ operations = .append .emit [] :: loop :: more
  | false => Op.Open operations

namespace Plan

/-- A plan put behind other stages. -/
def behind (front : List Stage) (plan : Plan) : Plan := .mk (front ++ plan.stages) plan.pending

theorem attach_behind (modulator : Modulator) (kind : StepKind) (front : List Stage)
    {stages : List Stage} (filled : stages ≠ []) :
    attach? modulator kind (front ++ stages) = (front ++ ·) <$> attach? modulator kind stages := by
  induction front with
  | nil =>
      rw [List.nil_append]
      cases attach? modulator kind stages <;> rfl
  | cons stage rest ih =>
      obtain ⟨next, others, same⟩ : ∃ next others, rest ++ stages = next :: others :=
        List.exists_cons_of_ne_nil fun nothing => filled (List.append_eq_nil_iff.mp nothing).2
      rw [List.cons_append, same]
      rw [same] at ih
      simp only [attach?, ih]
      cases attach? modulator kind stages <;> rfl

theorem add_stages_ne_nil (step : Step) (children : List Plan) {plan : Plan}
    (filled : plan.stages ≠ [] ∨ step.kind.isModulator = false) :
    (plan.add step children).stages ≠ [] := by
  obtain ⟨stages, pending⟩ := plan
  rw [add]
  split_ifs with modulating waits loop
  · have holds : stages ≠ [] := by
      rcases filled with holds | plain
      · exact holds
      · rw [modulating] at plain
        cases plain
    split
    · next attached found => exact attach_nonempty _ _ _ _ found
    · exact holds
  · split
    · next attached found => exact attach_nonempty _ _ _ _ found
    · simp [Plan.stages]
  · simp [Plan.stages]
  · simp [Plan.stages]

theorem add_behind (front : List Stage) (step : Step) (children : List Plan) {plan : Plan}
    (filled : plan.stages ≠ [] ∨ step.kind.isModulator = false) :
    (plan.behind front).add step children = (plan.add step children).behind front := by
  obtain ⟨stages, pending⟩ := plan
  by_cases modulating : step.kind.isModulator = true
  · have holds : stages ≠ [] := by
      rcases filled with holds | plain
      · exact holds
      · rw [modulating] at plain
        cases plain
    simp only [behind, add, Plan.stages, Plan.pending, modulating, if_true,
      attach_behind _ _ front holds]
    cases attach? (.mk step children false) step.kind stages with
    | some found => rfl
    | none =>
        simp only [List.append_assoc]
        split_ifs <;> rfl
  · have plain : step.kind.isModulator = false := Bool.eq_false_iff.mpr modulating
    simp only [behind, add, Plan.stages, Plan.pending, plain, Bool.false_eq_true, if_false,
      List.append_assoc]
    split_ifs <;> rfl

end Plan

namespace Live

variable {view : View} {front other : List Stage}

/-- Two builders hold the same plan behind different stages, and the plan is within a view. -/
def SameBehind (view : View) (front other : List Stage) (l m : Live) : Prop :=
  l.bound = m.bound ∧ ∃ plan : Plan, plan.stages ≠ [] ∧ view.AdmitsPlan plan ∧
    l.plan = plan.behind front ∧ m.plan = plan.behind other

end Live

namespace Script

variable {view : View} {front other : List Stage} {l m : Live} {plan : Plan}

theorem performOne_behind (holding : front ≠ []) (holdingOther : other ≠ [])
    (bound : l.bound = m.bound) (left : l.plan = plan.behind front)
    (right : m.plan = plan.behind other) (within : view.AdmitsPlan plan) {op : Op Script}
    (filled : plan.stages ≠ [] ∨ op.stands = true) (admitted : view.AdmitsOp op) :
    Alike (Live.SameBehind view front other) (performOne op l) (performOne op m) := by
  have rootless : l.isRooting = false := by
    simp [Live.isRooting, left, Plan.behind, Plan.isEmpty, Plan.stages, holding]
  have rootlessOther : m.isRooting = false := by
    simp [Live.isRooting, right, Plan.behind, Plan.isEmpty, Plan.stages, holdingOther]
  have adds {step : Step} {children : List Plan} (own : view.Admits step.kind step.arguments)
      (inside : view.AdmitsPlans children)
      (filled : plan.stages ≠ [] ∨ step.kind.isModulator = false) :
      Live.SameBehind view front other (l.add step children) (m.add step children) := by
    refine ⟨bound, plan.add step children, Plan.add_stages_ne_nil step children filled,
      View.added own inside within, ?_, ?_⟩
    · rw [Live.add, left, Plan.add_behind front step children filled]
    · rw [Live.add, right, Plan.add_behind other step children filled]
  cases op with
  | vertices =>
      change Alike _ (.ok (if l.isRooting then _ else _)) (.ok (if m.isRooting then _ else _))
      rw [rootless, rootlessOther]
      exact .ok (adds (View.admits_of_blind rfl _) trivial (.inr rfl))
  | edges =>
      change Alike _ (if l.isRooting then _ else _) (if m.isRooting then _ else _)
      rw [rootless, rootlessOther]
      exact .error _
  | addVertex label =>
      change Alike _ (.ok (if l.isRooting then _ else _)) (.ok (if m.isRooting then _ else _))
      rw [rootless, rootlessOther]
      exact .ok (adds (View.admits_of_blind rfl _) trivial (.inr rfl))
  | append kind slots inner =>
      rw [performOne, performOne]
      cases resolved : (resolve slots : Except BuildFault (List (Slot Live))) with
      | error fault => exact .error fault
      | ok found =>
          obtain ⟨arguments, children⟩ := resolve_within kind slots admitted.2 resolved
          refine .ok (adds ⟨admitted.1, arguments⟩ children (filled.imp_right fun stands => ?_))
          simpa [Op.stands, Step.kind] using stands
  | nothing =>
      rcases filled with holds | stands
      · exact .ok ⟨bound, plan, holds, within, left, right⟩
      · cases stands
  | refuse fault => exact .error fault

theorem performAll_behind (holding : front ≠ []) (holdingOther : other ≠ [])
    (same : Live.SameBehind view front other l m) {operations : List (Op Script)}
    (admitted : view.AdmitsOps operations) :
    Alike (Live.SameBehind view front other) (performAll operations l)
      (performAll operations m) := by
  induction operations generalizing l m with
  | nil => exact .ok same
  | cons op rest ih =>
      obtain ⟨bound, plan, filled, within, left, right⟩ := same
      rw [performAll, performAll]
      refine (performOne_behind holding holdingOther bound left right within (.inl filled)
        admitted.1).bind ?_
      exact fun _ _ next => ih next admitted.2

end Script

/-! Where a waiting emission goes. -/

/-- Whether the last stage is a loop after the operation, given whether it was one before. -/
def Op.endsInLoop {α : Type} (before : Bool) : Op α → Bool
  | .append kind _ _ => if kind.isModulator then before else kind == .repeat_
  | .nothing => before
  | .vertices | .edges | .addVertex _ | .refuse _ => false

/-- The operation makes a stage that is no loop, or is refused. -/
def Op.isStraight {α : Type} : Op α → Bool
  | .append kind _ _ => !kind.isModulator && kind != .repeat_
  | .nothing => false
  | .vertices | .edges | .addVertex _ | .refuse _ => true

namespace Op

variable {α : Type} {op : Op α}

theorem stands_of_straight (straight : op.isStraight = true) : op.stands = true := by
  cases op with
  | append kind slots inner => exact (Bool.and_eq_true_iff.mp straight).1
  | nothing => cases straight
  | _ => rfl

theorem endsInLoop_of_straight (straight : op.isStraight = true) (before : Bool) :
    op.endsInLoop before = false := by
  cases op with
  | append kind slots inner =>
      simp only [isStraight, Bool.and_eq_true, Bool.not_eq_true', bne_iff_ne] at straight
      simp [endsInLoop, straight.1, straight.2]
  | nothing => cases straight
  | _ => rfl

end Op

namespace Plan

/-- No emission is given to the last stage. -/
def Refuses (stages : List Stage) : Prop := ∀ modulator, attach? modulator .emit stages = none

theorem refuses_concat (stages : List Stage) (step : Step) (straight : step.kind ≠ .repeat_)
    (children : List Plan) (modulators : List Modulator) :
    Refuses (stages ++ [.apply step children modulators]) := by
  intro modulator
  refine attach_refused modulator stages step ?_ children modulators
  simpa [modulates, StepKind.isLoopModulator] using straight

/-- A modulator does not make a stage another one. -/
theorem refuses_attached {modulator : Modulator} {kind : StepKind} {stages found : List Stage}
    (refuses : Refuses stages) (attaches : attach? modulator kind stages = some found) :
    Refuses found := by
  rcases List.eq_nil_or_concat stages with rfl | ⟨init, last, rfl⟩
  · cases attaches
  · rw [List.concat_eq_append] at refuses attaches
    rw [attach_behind modulator kind init (List.cons_ne_nil last [])] at attaches
    obtain ⟨alone, attachesLast, rfl⟩ := Option.map_eq_some_iff.mp attaches
    cases last with
    | apply step children modulators =>
        have straight : step.kind ≠ .repeat_ := by
          intro loop
          have takes : modulates .emit step.kind = true := by simp [modulates, loop]
          have taken := attach_last modulator init step takes children modulators
          rw [refuses modulator] at taken
          cases taken
        rw [attach?] at attachesLast
        split at attachesLast
        · cases attachesLast
          exact refuses_concat init step straight children _
        · cases attachesLast
    | _ => cases attachesLast

theorem add_refuses {step : Step} {children : List Plan} {plan : Plan}
    (before : step.kind.isModulator = true → Refuses plan.stages)
    (straight : step.kind ≠ .repeat_) : Refuses (plan.add step children).stages := by
  obtain ⟨stages, pending⟩ := plan
  rw [add]
  split_ifs with modulating
  · split
    · next attached found => exact refuses_attached (before modulating) found
    · exact before modulating
  · split
    · next attached found => exact refuses_attached (before modulating) found
    · exact refuses_concat stages step straight children []
  · exact refuses_concat stages step straight children []

end Plan

namespace Script

variable {l built : Live}

theorem performOne_cases {op : Op Script} (performed : performOne op l = .ok built) :
    (op = .nothing ∧ built = l) ∨
    (∃ step stage, op.stands = true ∧ Plan.Refuses [stage] ∧ built = l.root step stage) ∨
    (∃ step children, op.stands = !step.kind.isModulator ∧ built = l.add step children ∧
      ∀ before, op.endsInLoop before =
        if step.kind.isModulator then before else step.kind == .repeat_) := by
  cases op with
  | vertices =>
      change Except.ok (if l.isRooting then _ else _) = .ok built at performed
      cases performed
      split_ifs
      · exact .inr (.inl ⟨_, _, rfl, fun _ => rfl, rfl⟩)
      · exact .inr (.inr ⟨_, _, rfl, rfl, fun _ => rfl⟩)
  | edges =>
      change (if l.isRooting then _ else _) = _ at performed
      split_ifs at performed
      cases performed
      exact .inr (.inl ⟨_, _, rfl, fun _ => rfl, rfl⟩)
  | addVertex label =>
      change Except.ok (if l.isRooting then _ else _) = .ok built at performed
      cases performed
      split_ifs
      · exact .inr (.inl ⟨_, _, rfl, fun _ => rfl, rfl⟩)
      · exact .inr (.inr ⟨_, _, rfl, rfl, fun _ => rfl⟩)
  | append kind slots inner =>
      rw [performOne, bind_eq_ok] at performed
      obtain ⟨found, _, same⟩ := performed
      cases same
      exact .inr (.inr ⟨_, _, rfl, rfl, fun _ => rfl⟩)
  | nothing =>
      cases performed
      exact .inl ⟨rfl, rfl⟩
  | refuse fault => cases performed

theorem performOne_stages_ne_nil {op : Op Script} (performed : performOne op l = .ok built)
    (filled : l.plan.stages ≠ [] ∨ op.stands = true) : built.plan.stages ≠ [] := by
  rcases performOne_cases performed with ⟨rfl, rfl⟩ | ⟨step, stage, _, _, rfl⟩ |
    ⟨step, children, stands, rfl, _⟩
  · rcases filled with holds | stands
    · exact holds
    · cases stands
  · obtain ⟨bound, program, plan⟩ := l
    obtain ⟨stages, pending⟩ := plan
    simp [Live.root, Plan.addStage, Plan.stages]
  · rw [stands, Bool.not_eq_true'] at filled
    exact Plan.add_stages_ne_nil step children filled

theorem performAll_stages_ne_nil {operations : List (Op Script)}
    (performed : performAll operations l = .ok built)
    (filled : l.plan.stages ≠ [] ∨ ∃ op ∈ operations, op.stands = true) :
    built.plan.stages ≠ [] := by
  induction operations generalizing l with
  | nil =>
      cases performed
      simpa using filled
  | cons op rest ih =>
      rw [performAll, bind_eq_ok] at performed
      obtain ⟨next, first, others⟩ := performed
      refine ih others ?_
      by_cases one : l.plan.stages ≠ [] ∨ op.stands = true
      · exact .inl (performOne_stages_ne_nil first one)
      · rw [not_or] at one
        obtain ⟨other, member, stands⟩ := filled.resolve_left one.1
        rcases List.mem_cons.mp member with rfl | there
        · exact absurd stands one.2
        · exact .inr ⟨other, there, stands⟩

theorem performOne_refuses {op : Op Script} (performed : performOne op l = .ok built)
    {before : Bool} (refuses : before = false → Plan.Refuses l.plan.stages)
    (straight : op.endsInLoop before = false) : Plan.Refuses built.plan.stages := by
  rcases performOne_cases performed with ⟨rfl, rfl⟩ | ⟨step, stage, _, alone, rfl⟩ |
    ⟨step, children, _, rfl, ends⟩
  · exact refuses straight
  · intro modulator
    change Plan.attach? modulator .emit (l.plan.addStage stage).stages = none
    obtain ⟨stages, pending⟩ := l.plan
    rw [Plan.addStage, Plan.stages, Plan.attach_behind _ _ _ (List.cons_ne_nil stage []),
      alone modulator]
    rfl
  · rw [ends] at straight
    refine Plan.add_refuses (fun modulating => ?_) ?_
    · rw [if_pos modulating] at straight
      exact refuses straight
    · intro loop
      rw [loop] at straight
      cases straight

/-- After operations that do not end in a loop an emission waits. -/
theorem performAll_refuses {operations : List (Op Script)}
    (performed : performAll operations l = .ok built) {before : Bool}
    (refuses : before = false → Plan.Refuses l.plan.stages)
    (straight : operations.foldl Op.endsInLoop before = false) :
    Plan.Refuses built.plan.stages := by
  induction operations generalizing l before with
  | nil =>
      cases performed
      exact refuses straight
  | cons op rest ih =>
      rw [performAll, bind_eq_ok] at performed
      obtain ⟨next, first, others⟩ := performed
      exact ih others (performOne_refuses first refuses) straight

end Script

end PropertyGraph
