import PropertyGraph.Builder.Backend
import PropertyGraph.Builder.Operation

/-!
Plans: programs arranged for execution. Modulators stand at the step that they configure; loop
modulators without a loop before them wait for the next one. A backend of the builder arranges a
plan while it records the program.
-/

namespace PropertyGraph

mutual

inductive Plan where
  | mk (stages : List Stage) (pending : List Modulator)

inductive Stage where
  | vertices
  | edges
  | addVertex (label : Option String)
  | apply (step : Step) (children : List Plan) (modulators : List Modulator)

inductive Modulator where
  | mk (step : Step) (children : List Plan) (before : Bool)

end

namespace Plan

def empty : Plan := .mk [] []

def stages : Plan → List Stage
  | .mk stages _ => stages

def pending : Plan → List Modulator
  | .mk _ pending => pending

def isEmpty (p : Plan) : Bool := p.stages.isEmpty && p.pending.isEmpty

def addStage (stage : Stage) : Plan → Plan
  | .mk stages pending => .mk (stages ++ [stage]) pending

/-- Whether a modulator of one kind configures a step of the other. -/
def modulates (modulator owner : StepKind) : Bool :=
  !modulator.isLoopModulator || owner == .repeat_

/-- Gives a modulator to the last stage if that stage takes it. -/
def attach? (modulator : Modulator) (kind : StepKind) : List Stage → Option (List Stage)
  | [] => none
  | [.apply step children modulators] =>
      if modulates kind step.kind then some [.apply step children (modulators ++ [modulator])]
      else none
  | stage :: rest => (stage :: ·) <$> attach? modulator kind rest

/-- A loop takes the modulators that wait; a modulator goes to the last stage, waits, or stays
alone. -/
def add (step : Step) (children : List Plan) : Plan → Plan
  | .mk stages pending =>
      if step.kind.isModulator then
        match attach? (.mk step children false) step.kind stages with
        | some stages => .mk stages pending
        | none =>
            if step.kind.isLoopModulator then .mk stages (pending ++ [.mk step children true])
            else .mk (stages ++ [.apply step children []]) pending
      else if step.kind = .repeat_ then .mk (stages ++ [.apply step children pending]) []
      else .mk (stages ++ [.apply step children []]) pending

/-- The label that a vertex-creating start step names. -/
def startLabel : List Argument → Option String
  | .label l :: _ => some l
  | .literal (.string l) :: _ => some l
  | _ => none

mutual

/-- Arranges the steps after those that a plan holds. -/
def extend (bound : Bool) : List Step → Plan → Except BuildFault Plan
  | [], plan => .ok plan
  | step :: rest, plan => do extend bound rest (← extendOne (bound && plan.isEmpty) step plan)

/-- One more step; a rooting step starts at the graph. -/
def extendOne (rooting : Bool) : Step → Plan → Except BuildFault Plan
  | .mk kind arguments, plan =>
      if rooting && kind == .v then .ok (plan.addStage .vertices)
      else if rooting && kind == .e then .ok (plan.addStage .edges)
      else if kind = .e then .error .misplacedEdges
      else if rooting && kind == .addV then .ok (plan.addStage (.addVertex (startLabel arguments)))
      else do return plan.add (.mk kind arguments) (← childrenOf arguments)

def childrenOf : List Argument → Except BuildFault (List Plan)
  | [] => .ok []
  | argument :: rest => do return (← childOf argument).toList ++ (← childrenOf rest)

def childOf : Argument → Except BuildFault (Option Plan)
  | .program steps => do return some (← extend false steps empty)
  | _ => .ok none

end

/-- The plan of a program, which may start at the graph if it is bound to one. -/
def ofProgram? (bound : Bool) (program : Program) : Except BuildFault Plan :=
  extend bound program empty

/-- The stream ends in one object, whatever enters. -/
def isReducing (p : Plan) : Bool :=
  match p.stages.getLast? with
  | some (.apply step _ _) => reduces step.kind && isGlobal step.arguments
  | _ => false
where
  reduces : StepKind → Bool
    | .fold | .count | .sum | .min | .max | .mean | .group => true
    | _ => false
  isGlobal : List Argument → Bool
    | .scope .local_ :: _ => false
    | _ => true

end Plan

structure Live where
  bound : Bool
  program : Program
  plan : Plan

namespace Live

def onGraph : Live := ⟨true, [], .empty⟩

/-- Start steps root the plan at the graph only while it is empty. -/
def isRooting (l : Live) : Bool := l.bound && l.plan.isEmpty

def root (step : Step) (stage : Stage) (l : Live) : Live :=
  { l with program := l.program ++ [step], plan := l.plan.addStage stage }

def add (step : Step) (children : List Plan) (l : Live) : Live :=
  { l with program := l.program ++ [step], plan := l.plan.add step children }

def argument : Slot Live → Argument
  | .argument a _ => a
  | .builder l => .program l.program

def child? : Slot Live → Option Plan
  | .argument _ _ => none
  | .builder l => some l.plan

def addVertexStep (label : Option String) : Step := .mk .addV (label.toList.map .label)

instance : Backend Live where
  floating := ⟨false, [], .empty⟩
  vertices l :=
    if l.isRooting then l.root (.mk .v []) .vertices else l.add (.mk .v []) []
  edges l := if l.isRooting then .ok (l.root (.mk .e []) .edges) else .error .misplacedEdges
  addVertex label l :=
    if l.isRooting then l.root (addVertexStep label) (.addVertex label)
    else l.add (addVertexStep label) []
  append kind slots l := l.add (.mk kind (slots.map argument)) (slots.filterMap child?)

/-- A live traversal of a given program. -/
def ofProgram? (bound : Bool) (program : Program) : Except BuildFault Live := do
  return ⟨bound, program, ← Plan.ofProgram? bound program⟩

end Live

end PropertyGraph
