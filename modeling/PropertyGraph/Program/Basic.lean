import PropertyGraph.Function.Basic
import PropertyGraph.Program.Predicate
import PropertyGraph.Program.StepKind
import PropertyGraph.Program.Token

/-!
Programs: lists of steps whose arguments may be programs themselves. `Program.text` is the canonical
form, the same for every way of building a program.
-/

namespace PropertyGraph

mutual

inductive Argument where
  | literal (v : Value)
  | predicate (p : Predicate)
  | program (steps : List Step)
  | label (s : String)
  | scope (s : Scope)
  | order (o : SortOrder)
  | pop (p : Pop)
  | column (c : Column)
  | cardinality (c : Cardinality)
  | token (t : ElementToken)
  | function (f : Function)

inductive Step where
  | mk (kind : StepKind) (arguments : List Argument)

end

abbrev Program := List Step

def Step.kind : Step → StepKind
  | .mk kind _ => kind

def Step.arguments : Step → List Argument
  | .mk _ arguments => arguments

def Step.name (step : Step) : String := step.kind.name

def Argument.program? : Argument → Option Program
  | .program steps => some steps
  | _ => none

/-- Programs among the arguments, in order. -/
def Step.programs (step : Step) : List Program := step.arguments.filterMap Argument.program?

mutual

def Argument.text : Argument → String
  | .literal v => v.text
  | .predicate p => p.text
  | .program steps => "[" ++ Text.joined ", " (Step.texts steps) ++ "]"
  | .label s => s
  | .scope s => s.name
  | .order o => o.name
  | .pop p => p.name
  | .column c => c.name
  | .cardinality c => c.name
  | .token t => t.name
  | .function f => f.text

def Argument.texts : List Argument → List String
  | [] => []
  | argument :: rest => argument.text :: Argument.texts rest

def Step.text : Step → String
  | .mk kind arguments => kind.name ++ "(" ++ Text.joined ", " (Argument.texts arguments) ++ ")"

def Step.texts : List Step → List String
  | [] => []
  | step :: rest => step.text :: Step.texts rest

end

namespace Program

def text (p : Program) : String := "[" ++ Text.joined ", " (Step.texts p) ++ "]"

/-- Starts at the graph. -/
def isRooted (p : Program) : Bool :=
  match p with
  | step :: _ => step.kind.isEntry
  | [] => false

/-- The texts of the programs inside each step. -/
def parts (p : Program) : List (List String) := p.map fun step => step.programs.map text

end Program

mutual

def Argument.same : Argument → Argument → Bool
  | .literal a, .literal b => a == b
  | .predicate a, .predicate b => a == b
  | .program a, .program b => Step.sameSteps a b
  | .label a, .label b => a == b
  | .scope a, .scope b => a == b
  | .order a, .order b => a == b
  | .pop a, .pop b => a == b
  | .column a, .column b => a == b
  | .cardinality a, .cardinality b => a == b
  | .token a, .token b => a == b
  | .function a, .function b => a == b
  | _, _ => false
termination_by structural a => a

def Argument.sameArguments : List Argument → List Argument → Bool
  | [], [] => true
  | a :: as, b :: bs => a.same b && Argument.sameArguments as bs
  | _, _ => false
termination_by structural a => a

def Step.same : Step → Step → Bool
  | .mk k as, .mk l bs => k == l && Argument.sameArguments as bs
termination_by structural a => a

def Step.sameSteps : List Step → List Step → Bool
  | [], [] => true
  | a :: as, b :: bs => a.same b && Step.sameSteps as bs
  | _, _ => false
termination_by structural a => a

end

mutual

theorem Argument.same_iff : (a b : Argument) → (a.same b = true ↔ a = b)
  | .literal _, b => by cases b <;> simp [Argument.same]
  | .predicate _, b => by cases b <;> simp [Argument.same]
  | .program a, b => by cases b <;> simp [Argument.same, Step.sameSteps_iff a]
  | .label _, b => by cases b <;> simp [Argument.same]
  | .scope _, b => by cases b <;> simp [Argument.same]
  | .order _, b => by cases b <;> simp [Argument.same]
  | .pop _, b => by cases b <;> simp [Argument.same]
  | .column _, b => by cases b <;> simp [Argument.same]
  | .cardinality _, b => by cases b <;> simp [Argument.same]
  | .token _, b => by cases b <;> simp [Argument.same]
  | .function _, b => by cases b <;> simp [Argument.same]
termination_by structural a => a

theorem Argument.sameArguments_iff :
    (a b : List Argument) → (Argument.sameArguments a b = true ↔ a = b)
  | [], b => by cases b <;> simp [Argument.sameArguments]
  | _ :: _, [] => by simp [Argument.sameArguments]
  | a :: as, b :: bs => by
      simp [Argument.sameArguments, Argument.same_iff a b, Argument.sameArguments_iff as bs]
termination_by structural a => a

theorem Step.same_iff : (a b : Step) → (a.same b = true ↔ a = b)
  | .mk _ as, .mk _ bs => by simp [Step.same, Argument.sameArguments_iff as bs]
termination_by structural a => a

theorem Step.sameSteps_iff : (a b : List Step) → (Step.sameSteps a b = true ↔ a = b)
  | [], b => by cases b <;> simp [Step.sameSteps]
  | _ :: _, [] => by simp [Step.sameSteps]
  | a :: as, b :: bs => by simp [Step.sameSteps, Step.same_iff a b, Step.sameSteps_iff as bs]
termination_by structural a => a

end

instance : DecidableEq Argument := fun a b => decidable_of_iff _ (Argument.same_iff a b)

instance : DecidableEq Step := fun a b => decidable_of_iff _ (Step.same_iff a b)

end PropertyGraph
