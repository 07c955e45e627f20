import PropertyGraph.Program.Token
import PropertyGraph.Value.Basic

/-!
Traversers: an object on its way through a traversal, with the labelled path behind it and one
counter for each loop around it.
-/

namespace PropertyGraph

structure Visit where
  labels : List String
  object : Value

/-- The past and the loop counters are newest first. -/
structure Traverser where
  here : Visit
  past : List Visit
  loops : List Nat

namespace Traverser

def start (object : Value) : Traverser := ⟨⟨[], object⟩, [], []⟩

def object (t : Traverser) : Value := t.here.object

/-- Moves on to an object. -/
def split (t : Traverser) (object : Value) : Traverser :=
  { t with here := ⟨[], object⟩, past := t.here :: t.past }

def addLabel (t : Traverser) (label : String) : Traverser :=
  if t.here.labels.contains label then t
  else { t with here := { t.here with labels := t.here.labels ++ [label] } }

/-- The objects visited, oldest first. -/
def path (t : Traverser) : List Value := ((t.here :: t.past).map (·.object)).reverse

/-- The objects under a label, oldest first. -/
def labelled (t : Traverser) (label : String) : List Value :=
  (((t.here :: t.past).filter (·.labels.contains label)).map (·.object)).reverse

def pathValue? (t : Traverser) (pop : Pop) (label : String) : Option Value :=
  let found := t.labelled label
  match pop with
  | .first => found.head?
  | .last => found.getLast?
  | .all => some (.list found)
  | .mixed =>
      match found with
      | [] => none
      | [only] => some only
      | several => some (.list several)

/-- Rounds of the innermost loop. -/
def loopCount (t : Traverser) : Nat := t.loops.headD 0

def enterLoop (t : Traverser) : Traverser := { t with loops := 0 :: t.loops }

def countLoop (t : Traverser) : Traverser :=
  match t.loops with
  | [] => t
  | count :: outer => { t with loops := (count + 1) :: outer }

def exitLoop (t : Traverser) : Traverser := { t with loops := t.loops.tail }

end Traverser

end PropertyGraph
