import PropertyGraph.Client.Basic
import PropertyGraph.Proofs.Builder.Compiled
import PropertyGraph.Proofs.Builder.Insertion
import PropertyGraph.Proofs.Program.Kinds
import PropertyGraph.Proofs.Run.Metrics

/-!
Edges at a wrong place. Only a program that is bound to a graph may start at it, and only with its
first step; what follows is compiled as if it stood alone, below the start. So it is enough to know
when a program that stands alone is refused: when it holds an edge step, at any depth. What is not
refused applies no edge step, wherever it is run.
-/

namespace PropertyGraph

namespace Step

/-- The stage that starts at the graph. -/
def startStage : Step → Stage
  | .mk .v _ => .vertices
  | .mk .e _ => .edges
  | .mk _ arguments => .addVertex (Plan.startLabel arguments)

end Step

namespace Program

def start (bound : Bool) : Program → List Step
  | [] => []
  | step :: _ => if bound && step.kind.isEntry then [step] else []

/-- The steps that are not a start at the graph. -/
def inner (bound : Bool) : Program → Program
  | [] => []
  | step :: rest => if bound && step.kind.isEntry then rest else step :: rest

/-- An edge step that is not a start at the graph, at top level or at any depth in an argument of a
step that is none either. -/
def MisplacesEdges (bound : Bool) (p : Program) : Prop := .e ∈ (p.inner bound).kinds

instance (bound : Bool) (p : Program) : Decidable (p.MisplacesEdges bound) :=
  List.instDecidableMemOfLawfulBEq _ _

end Program

namespace Stage

def isStart : Stage → Bool
  | .vertices | .edges | .addVertex _ => true
  | .apply _ _ _ => false

theorem startStage_isStart {step : Step} : step.startStage.isStart = true := by
  unfold Step.startStage
  split <;> rfl

end Stage

namespace Plan

theorem behind_nil (plan : Plan) : plan.behind [] = plan := by
  cases plan
  rfl

theorem attach_start {start : Stage} (starts : start.isStart = true) (modulator : Modulator)
    (kind : StepKind) : attach? modulator kind [start] = none := by
  cases start with
  | apply step children modulators => cases starts
  | _ => rfl

theorem add_behind_start {start : Stage} (starts : start.isStart = true) (step : Step)
    (children : List Plan) (plan : Plan) :
    (plan.behind [start]).add step children = (plan.add step children).behind [start] := by
  by_cases filled : plan.stages ≠ [] ∨ step.kind.isModulator = false
  · exact add_behind [start] step children filled
  obtain ⟨empty, modulating⟩ := not_or.mp filled
  obtain ⟨stages, pending⟩ := plan
  obtain rfl : stages = [] := not_not.mp empty
  have modulating : step.kind.isModulator = true := by simpa using modulating
  simp only [behind, add, Plan.stages, Plan.pending, modulating, if_true, List.append_nil,
    attach_start starts, attach?]
  split_ifs <;> rfl

theorem extendOne_inner (step : Step) (plan : Plan) :
    extendOne false step plan =
      if step.kind = .e then .error .misplacedEdges
      else do return plan.add step (← childrenOf step.arguments) := by
  cases step
  simp [extendOne, Step.kind, Step.arguments]

theorem extendOne_start {step : Step} (entry : step.kind.isEntry = true) (plan : Plan) :
    extendOne true step plan = .ok (plan.addStage step.startStage) := by
  obtain ⟨kind, arguments⟩ := step
  cases kind <;> first | rfl | cases entry

theorem extendOne_plain {step : Step} (plain : step.kind.isEntry = false) (rooting : Bool)
    (plan : Plan) : extendOne rooting step plan = extendOne false step plan := by
  obtain ⟨kind, arguments⟩ := step
  cases rooting with
  | false => rfl
  | true => cases kind <;> first | rfl | cases plain

theorem extend_filled (bound : Bool) (steps : List Step) {plan : Plan}
    (filled : plan.isEmpty = false) : extend bound steps plan = extend false steps plan := by
  induction steps generalizing plan with
  | nil => rfl
  | cons step rest ih =>
      simp only [extend, filled, Bool.and_false, extendOne_inner]
      split_ifs
      · rfl
      · cases childrenOf step.arguments with
        | error fault => rfl
        | ok children => exact ih (add_nonempty step children plan)

theorem extend_behind_start {start : Stage} (starts : start.isStart = true) (steps : List Step)
    (plan : Plan) :
    extend false steps (plan.behind [start]) = (·.behind [start]) <$> extend false steps plan := by
  induction steps generalizing plan with
  | nil => rfl
  | cons step rest ih =>
      simp only [extend, Bool.false_and, extendOne_inner]
      split_ifs
      · rfl
      · cases childrenOf step.arguments with
        | error fault => rfl
        | ok children =>
            change extend false rest ((plan.behind [start]).add step children) = _
            rw [add_behind_start starts, ih]
            rfl

/-- A program is compiled as its start, before what the rest of it is on its own. -/
theorem ofProgram?_eq (bound : Bool) (p : Program) :
    ofProgram? bound p =
      (·.behind ((p.start bound).map Step.startStage)) <$> ofProgram? false (p.inner bound) := by
  cases p with
  | nil => rfl
  | cons step rest =>
      by_cases entry : (bound && step.kind.isEntry) = true
      · obtain ⟨rfl, entry⟩ := Bool.and_eq_true_iff.mp entry
        have filled : (empty.addStage step.startStage).isEmpty = false := add_stage_nonempty _ _
        simp only [ofProgram?, Program.start, Program.inner, entry, if_true]
        rw [extend, show (true && empty.isEmpty) = true from rfl, extendOne_start entry]
        change extend true rest (empty.addStage step.startStage) = _
        rw [extend_filled true rest filled]
        exact extend_behind_start Stage.startStage_isStart rest empty
      · have plain : (bound && step.kind.isEntry) = false := Bool.eq_false_iff.mpr entry
        have alone : ofProgram? bound (step :: rest) = ofProgram? false (step :: rest) := by
          cases bound with
          | false => rfl
          | true =>
              have plain : step.kind.isEntry = false := plain
              simp only [ofProgram?, extend, extendOne_plain plain (true && empty.isEmpty),
                Bool.false_and]
              rw [extendOne_inner]
              split_ifs
              · rfl
              · cases childrenOf step.arguments with
                | error fault => rfl
                | ok children => exact extend_filled true rest (add_nonempty step children empty)
        simp only [Program.start, Program.inner, plain, Bool.false_eq_true, if_false, alone,
          List.map_nil, behind_nil]
        exact (id_map _).symm

end Plan

/-- Refused for edges at a wrong place where there are such, and in no other case. -/
inductive RefusedIf {α : Type} (misplaced : Prop) : Except BuildFault α → Prop
  | refused (there : misplaced) : RefusedIf misplaced (.error .misplacedEdges)
  | built (none : ¬misplaced) (a : α) : RefusedIf misplaced (.ok a)

namespace RefusedIf

variable {α β : Type} {misplaced later : Prop}

theorem bind {result : Except BuildFault α} {f : α → Except BuildFault β}
    (first : RefusedIf misplaced result) (next : ∀ a, RefusedIf later (f a)) :
    RefusedIf (misplaced ∨ later) (result >>= f) := by
  cases first with
  | refused there => exact .refused (.inl there)
  | built none a =>
      have second := next a
      change RefusedIf _ (f a)
      generalize f a = found at second
      cases second with
      | refused there => exact .refused (.inr there)
      | built neither b => exact .built (not_or.mpr ⟨none, neither⟩) b

theorem map {result : Except BuildFault α} (refused : RefusedIf misplaced result) (g : α → β) :
    RefusedIf misplaced (g <$> result) := by
  cases refused with
  | refused there => exact .refused there
  | built none a => exact .built none (g a)

theorem congr {result : Except BuildFault α} (refused : RefusedIf misplaced result)
    (same : misplaced ↔ later) : RefusedIf later result :=
  propext same ▸ refused

end RefusedIf

namespace Plan

mutual

theorem extend_refused : (steps : List Step) → (plan : Plan) →
    RefusedIf (.e ∈ Step.stepsKinds steps) (extend false steps plan)
  | [], plan => .built List.not_mem_nil plan
  | step :: rest, plan =>
      ((extendOne_refused step plan).bind fun next => extend_refused rest next).congr
        List.mem_append.symm
termination_by structural steps => steps

theorem extendOne_refused : (step : Step) → (plan : Plan) →
    RefusedIf (.e ∈ step.kinds) (extendOne false step plan)
  | .mk kind arguments, plan => by
      rw [extendOne_inner]
      split_ifs with edges
      · exact .refused (edges ▸ List.mem_cons_self)
      · refine ((childrenOf_refused arguments).map (plan.add (.mk kind arguments))).congr ?_
        have other : StepKind.e ≠ kind := fun same => edges same.symm
        simp [Step.kinds, other]
termination_by structural step => step

theorem childrenOf_refused : (arguments : List Argument) →
    RefusedIf (.e ∈ Argument.argumentsKinds arguments) (childrenOf arguments)
  | [] => .built List.not_mem_nil []
  | argument :: rest =>
      ((childOf_refused argument).bind fun child =>
        (childrenOf_refused rest).map (child.toList ++ ·)).congr List.mem_append.symm
termination_by structural arguments => arguments

theorem childOf_refused : (argument : Argument) →
    RefusedIf (.e ∈ argument.kinds) (childOf argument)
  | .program steps => (extend_refused steps empty).map some
  | .literal _ | .predicate _ | .label _ | .scope _ | .order _ | .pop _ | .column _
  | .cardinality _ | .token _ | .function _ => .built List.not_mem_nil none
termination_by structural argument => argument

end

theorem ofProgram?_refused (bound : Bool) (p : Program) :
    RefusedIf (p.MisplacesEdges bound) (ofProgram? bound p) := by
  rw [ofProgram?_eq]
  exact (extend_refused (p.inner bound) empty).map _

end Plan

namespace Plan

/-- No step of a kind is applied in a plan, at any depth; it may start at the graph. -/
def NeverApplies (kind : StepKind) (plan : Plan) : Prop :=
  ∃ front inside, plan = behind front inside ∧ (∀ stage ∈ front, stage.isStart = true) ∧
    inside.Uses (· ≠ kind)

theorem ofProgram?_never_applies {bound : Bool} {p : Program} {plan : Plan}
    (compiled : ofProgram? bound p = .ok plan) : plan.NeverApplies .e := by
  have refused := ofProgram?_refused bound p
  rw [compiled] at refused
  obtain ⟨⟩ | ⟨placed, _⟩ := refused
  rw [ofProgram?_eq] at compiled
  cases alone : ofProgram? false (p.inner bound) with
  | error fault =>
      rw [alone] at compiled
      cases compiled
  | ok inside =>
      rw [alone] at compiled
      cases compiled
      have others : ∀ kind ∈ (p.inner bound).kinds, kind ≠ .e := by
        rintro kind member rfl
        exact placed member
      refine ⟨_, inside, rfl, ?_, ofProgram?_uses others alone⟩
      intro stage member
      obtain ⟨step, _, rfl⟩ := List.mem_map.mp member
      exact Stage.startStage_isStart

theorem start_keeps (w : Exec.WritingDiscipline) (engine : Engine) {stage : Stage}
    (starts : stage.isStart = true) (stream : Stream) : w.holds (runStage engine stage stream) := by
  cases stage with
  | vertices => exact w.bind w.graph fun _ => w.pure _
  | edges => exact w.bind w.graph fun _ => w.pure _
  | addVertex label => exact w.bind (w.createVertex label) fun _ => w.pure _
  | apply step children modulators => cases starts

theorem starts_keep (w : Exec.WritingDiscipline) (engine : Engine) {front rest : List Stage}
    (starts : ∀ stage ∈ front, stage.isStart = true)
    (keeps : ∀ stream, w.holds (runStages engine rest stream)) (stream : Stream) :
    w.holds (runStages engine (front ++ rest) stream) := by
  induction front generalizing stream with
  | nil => exact keeps stream
  | cons stage others ih =>
      obtain ⟨first, starts⟩ := List.forall_mem_cons.mp starts
      exact w.bind (start_keeps w engine first stream) fun _ => ih starts _

theorem NeverApplies.run_keeps {plan : Plan} (never : plan.NeverApplies .e)
    (w : Exec.WritingDiscipline) (engine : Engine) (stream : Stream) :
    w.holds (plan.run engine stream) := by
  obtain ⟨front, ⟨stages, pending⟩, rfl, starts, uses⟩ := never
  cases pending with
  | nil => exact starts_keep w engine starts (runStages_keep w.permits engine stages uses.1) stream
  | cons modulator others =>
      cases modulator
      exact w.throw _ rfl

end Plan

namespace Exec

/-- It does not end for edges at a wrong place. -/
def PlacesEdges {α : Type} (m : Exec α) : Prop := ∀ world, (m.run world).1 ≠ .error .misplacedEdges

namespace PlacesEdges

variable {α β : Type}

theorem bind {m : Exec α} {f : α → Exec β} (first : PlacesEdges m)
    (next : ∀ a, PlacesEdges (f a)) : PlacesEdges (m >>= f) := by
  intro world
  have other := first world
  rw [run_bind]
  generalize m.run world = seen at other
  obtain ⟨result, after⟩ := seen
  cases result with
  | ok a => exact next a after
  | error fault =>
      intro same
      exact other (congrArg Except.error (Except.error.inj same))

theorem createEdge (label : String) (source target : VertexId) :
    PlacesEdges (Exec.createEdge label source target) := by
  rintro ⟨⟨graph, counters⟩, known⟩
  rw [Unmetered.createEdge_run]
  cases graph.addEdge label source target [] <;> exact nofun

theorem update (change : Graph → Except MissingElement Graph) :
    PlacesEdges (Exec.update change) := by
  rintro ⟨⟨graph, counters⟩, known⟩
  rw [Unmetered.update_run]
  cases change graph <;> exact nofun

end PlacesEdges

def edgesPlaced : WritingDiscipline where
  holds := PlacesEdges
  pure _ _ := nofun
  throw _ other _ := by
    rintro ⟨⟩
    cases other
  bind := .bind
  graph _ := nofun
  sideEffects _ := nofun
  remember _ _ _ := nofun
  createVertex _ _ := nofun
  createEdge := .createEdge
  update _ := .update _
  countDrop _ := nofun

end Exec

namespace Live

/-- One more step of a given program: it is recorded, and the plan goes on. -/
def record (l : Live) (step : Step) : Except BuildFault Live := do
  return ⟨l.bound, l.program ++ [step], ← Plan.extendOne l.isRooting step l.plan⟩

/-- All steps of a given program, in order. -/
def recordAll (bound : Bool) (p : Program) : Except BuildFault Live :=
  p.foldlM record ⟨bound, [], .empty⟩

theorem foldlM_record (steps : List Step) (l : Live) :
    steps.foldlM record l =
      (⟨l.bound, l.program ++ steps, ·⟩) <$> Plan.extend l.bound steps l.plan := by
  induction steps generalizing l with
  | nil =>
      rw [List.append_nil]
      rfl
  | cons step rest ih =>
      rw [List.foldlM_cons, Plan.extend]
      change record l step >>= _ =
        _ <$> (Plan.extendOne l.isRooting step l.plan >>= Plan.extend l.bound rest)
      rw [record]
      cases Plan.extendOne l.isRooting step l.plan with
      | error fault => rfl
      | ok plan =>
          change List.foldlM record ⟨l.bound, l.program ++ [step], plan⟩ rest = _
          rw [ih, List.append_assoc]
          rfl

theorem recordAll_eq (bound : Bool) (p : Program) : recordAll bound p = ofProgram? bound p := by
  rw [recordAll, foldlM_record, ofProgram?]
  exact map_eq_pure_bind _ _

end Live

/-- What a program is compiled to: it is recorded as it is, and no edge step is applied in it, so
no run of it ends for edges at a wrong place. -/
structure Live.Compiles (bound : Bool) (p : Program) (l : Live) : Prop where
  bound : l.bound = bound
  program : l.program = p
  never_applies : l.plan.NeverApplies .e
  run : ∀ engine stream world, ((l.plan.run engine stream).run world).1 ≠ .error .misplacedEdges

/-- Edges at a wrong place, and these alone, are refused, before anything is run. -/
theorem misplaced_edges_are_refused_exactly (bound : Bool) (p : Program) :
    if p.MisplacesEdges bound then
      Live.recordAll bound p = .error .misplacedEdges ∧
        Live.ofProgram? bound p = .error .misplacedEdges ∧
        (Error.build .misplacedEdges).kind = .illegalState ∧
        (bound = true → ∀ client : Client,
          client.submitProgram p = (.rejected (.build .misplacedEdges), client))
    else ∃ l, Live.recordAll bound p = .ok l ∧ Live.ofProgram? bound p = .ok l ∧
      l.Compiles bound p := by
  rw [Live.recordAll_eq, Live.ofProgram?]
  have refused := Plan.ofProgram?_refused bound p
  generalize compiled : Plan.ofProgram? bound p = result at refused
  cases refused with
  | refused there =>
      rw [if_pos there]
      refine ⟨rfl, rfl, rfl, ?_⟩
      rintro rfl client
      rw [Client.submitProgram, Live.ofProgram?, compiled]
      rfl
  | built placed plan =>
      rw [if_neg placed]
      have never := Plan.ofProgram?_never_applies compiled
      exact ⟨⟨bound, p, plan⟩, rfl, rfl, rfl, rfl, never,
        fun engine stream world => never.run_keeps Exec.edgesPlaced engine stream world⟩

/-- Edges at the start, and edges after what would be a start elsewhere. -/
theorem edges_are_refused_below_a_step :
    (∃ l, Live.ofProgram? true [.mk .e [], .mk .inV []] = .ok l ∧
      l.Compiles true [.mk .e [], .mk .inV []]) ∧
    Live.ofProgram? true [.mk .v [], .mk .map [.program [.mk .v [], .mk .e []]]] =
      .error .misplacedEdges := by
  have starting := misplaced_edges_are_refused_exactly true [.mk .e [], .mk .inV []]
  have nested := misplaced_edges_are_refused_exactly true
    [.mk .v [], .mk .map [.program [.mk .v [], .mk .e []]]]
  rw [if_neg (by decide)] at starting
  rw [if_pos (by decide)] at nested
  obtain ⟨l, _, built, compiles⟩ := starting
  exact ⟨⟨l, built, compiles⟩, nested.2.1⟩

end PropertyGraph
