import PropertyGraph.Builder.Operation

/-!
Backends that carry out operations, and scripts: operations whose builders are scripts themselves,
each carried out on a fresh floating builder.
-/

namespace PropertyGraph

class Backend (σ : Type) where
  /-- A builder that is not bound to a graph. -/
  floating : σ
  vertices : σ → σ
  edges : σ → Except BuildFault σ
  addVertex : Option String → σ → σ
  append : StepKind → List (Slot σ) → σ → σ

/-- A refused operation leaves the builder as it was. -/
def Op.perform {σ : Type} [Backend σ] : Op σ → σ → Except BuildFault σ
  | .vertices, b => .ok (Backend.vertices b)
  | .edges, b => Backend.edges b
  | .addVertex label, b => .ok (Backend.addVertex label b)
  | .append kind slots _, b => .ok (Backend.append kind slots b)
  | .nothing, b => .ok b
  | .refuse fault, _ => .error fault

def Op.performAll {σ : Type} [Backend σ] : List (Op σ) → σ → Except BuildFault σ
  | [], b => .ok b
  | op :: rest, b => do Op.performAll rest (← op.perform b)

inductive Script where
  | of (operations : List (Op Script))

namespace Script

variable {σ : Type} [Backend σ]

mutual

def perform : Script → σ → Except BuildFault σ
  | .of operations, b => performAll operations b

def performAll : List (Op Script) → σ → Except BuildFault σ
  | [], b => .ok b
  | op :: rest, b => do performAll rest (← performOne op b)

def performOne : Op Script → σ → Except BuildFault σ
  | .vertices, b => .ok (Backend.vertices b)
  | .edges, b => Backend.edges b
  | .addVertex label, b => .ok (Backend.addVertex label b)
  | .append kind slots _, b => do return Backend.append kind (← resolve slots) b
  | .nothing, b => .ok b
  | .refuse fault, _ => .error fault

def resolve : List (Slot Script) → Except BuildFault (List (Slot σ))
  | [] => .ok []
  | slot :: rest => do return (← resolveOne slot) :: (← resolve rest)

def resolveOne : Slot Script → Except BuildFault (Slot σ)
  | .argument a flat => .ok (.argument a flat)
  | .builder script => do return .builder (← perform script Backend.floating)

end

end Script

/-- The backend that only records the program. -/
structure Recorder where
  rooted : Bool
  program : Program

namespace Recorder

def rootedAtGraph : Recorder := ⟨true, []⟩

def add (step : Step) (r : Recorder) : Recorder := { r with program := r.program ++ [step] }

def argument : Slot Recorder → Argument
  | .argument a _ => a
  | .builder r => .program r.program

instance : Backend Recorder where
  floating := ⟨false, []⟩
  vertices := add (.mk .v [])
  edges r :=
    if r.rooted && r.program.isEmpty then .ok (add (.mk .e []) r) else .error .misplacedEdges
  addVertex label := add (.mk .addV (label.toList.map .label))
  append kind slots := add (.mk kind (slots.map argument))

end Recorder

end PropertyGraph
