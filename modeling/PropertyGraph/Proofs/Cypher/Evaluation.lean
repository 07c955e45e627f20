import PropertyGraph.Cypher.ExpressionScript
import PropertyGraph.Proofs.Run.Single

/-!
Expressions evaluated directly, by recursion on what they are made of. Null is the text that stands
for it. Nothing here knows of steps or traversals, apart from where a traverser keeps its variables.
-/

namespace PropertyGraph

/-- What an expression is evaluated in: a graph, and what its variables stand for. -/
structure Environment where
  graph : Graph
  value? : String → Option Value

namespace Environment

/-- Every variable of a scope stands for something. -/
def Covers (env : Environment) (b : Cypher.Bindings) : Prop :=
  ∀ name, (Dictionary.get? name b).isSome → (env.value? name).isSome

/-- A variable of a scope stands for the last object labelled with it, one for a path of variable
length for all of them. -/
def onPath (b : Cypher.Bindings) (g : Graph) (t : Traverser) : Environment where
  graph := g
  value? name :=
    match Dictionary.get? name b with
    | none => none
    | some .relationships => some (.list (t.labelled name))
    | some _ => (t.labelled name).getLast?

/-- A variable of a scope stands for what a traverser finds under its name. -/
def seenFrom (b : Cypher.Bindings) (world : World) (t : Traverser) : Environment where
  graph := world.store.graph
  value? name :=
    match Dictionary.get? name b with
    | none => none
    | some .relationships => world.named? t .all name
    | some _ => world.named? t .last name

end Environment

/-- The labels along the path bind the variables of a scope; only a path of variable length may
have no edge. -/
def Traverser.Binds (t : Traverser) (b : Cypher.Bindings) : Prop :=
  ∀ name kind, Dictionary.get? name b = some kind → kind ≠ .relationships → t.labelled name ≠ []

/-- No entry of the object and no side effect stands before a variable of a scope. -/
def World.Exposes (world : World) (t : Traverser) (b : Cypher.Bindings) : Prop :=
  ∀ name, (Dictionary.get? name b).isSome →
    t.object.map?.bind (Dictionary.get? (.string name)) = none ∧
      Dictionary.get? name world.sideEffects = none

namespace Function

def ofPair (f : Function) (left right : Value) : Except ExecutionFault Value :=
  f.value (.list [left, right])

end Function

namespace BinaryOperator

/-- What an operator computes from the values of both operands. -/
def operation? : BinaryOperator → Option Function
  | .or => some .or
  | .xor => some .xor
  | .and => some .and
  | .eq => some .equals
  | .ne => some .notEquals
  | .lt => some .less
  | .le => some .lessOrEqual
  | .gt => some .greater
  | .ge => some .greaterOrEqual
  | .add => some .plus
  | .sub => some .minus
  | .mul => some .multiply
  | .div => some .divide
  | .mod => some .modulo
  | .in_ | .startsWith | .endsWith | .contains => none

/-- What an operator tests its left operand for, given the literal on its right. -/
def test? : BinaryOperator → Value → Option Predicate
  | .in_, .list items => some (.within items)
  | .startsWith, .string s => some (.startingWith s)
  | .endsWith, .string s => some (.endingWith s)
  | .contains, .string s => some (.containing s)
  | _, _ => none

end BinaryOperator

namespace Expression

def scalarValue (g : Graph) (name : String) (operand : Value) : Except ExecutionFault Value :=
  match name with
  | "id" => operand.elementId
  | "type" => operand.elementLabel
  | "labels" => do return .list [← operand.elementLabel]
  | "keys" => do return .list ((← g.propertiesOf operand).keys.map .string)
  | "tostring" => Function.toString.value operand
  | "tointeger" => Function.toInteger.value operand
  | "tofloat" => Function.toFloat.value operand
  | "toboolean" => Function.toBoolean.value operand
  | "size" => Function.size.value operand
  | _ => .ok Value.unknown

/-- Null on null, and otherwise whether the operand passes the test. -/
def tested (p : Predicate) (operand : Value) : Value :=
  if operand = Value.unknown then Value.unknown else .bool (p.test operand)

mutual

/-- The value of an expression. Those that have no script are given the unknown value. -/
def evaluate (env : Environment) : Expression → Except ExecutionFault Value
  | .literal v => .ok (if v = .null then Value.unknown else v)
  | .reference name => .ok ((env.value? name).getD Value.unknown)
  | .property owner key => do
      let properties ← env.graph.propertiesOf ((env.value? owner).getD Value.unknown)
      return (Dictionary.get? key properties).getD Value.unknown
  | .list items => do return .list (← evaluateAll env items)
  | .map entries => do return .record (← evaluateEntries env entries)
  | .binary left op right => do
      let first ← left.evaluate env
      match op.operation? with
      | some f => f.ofPair first (← right.evaluate env)
      | none =>
          match right.literal?.bind op.test? with
          | some p => return tested p first
          | none => return Value.unknown
  | .not operand => do Function.not.value (← operand.evaluate env)
  | .negate operand => do Function.minus.ofPair (.int 0) (← operand.evaluate env)
  | .isNull operand => do return .bool ((← operand.evaluate env) = Value.unknown)
  | .isNotNull operand => do return .bool ((← operand.evaluate env) ≠ Value.unknown)
  | .call name _ arguments => do
      match ← evaluateAll env arguments with
      | [operand] => scalarValue env.graph name operand
      | _ => return Value.unknown
  | .countAll => .ok Value.unknown

def evaluateAll (env : Environment) : List Expression → Except ExecutionFault (List Value)
  | [] => .ok []
  | e :: rest => do return (← e.evaluate env) :: (← evaluateAll env rest)

def evaluateEntries (env : Environment) :
    List (String × Expression) → Except ExecutionFault (List (String × Value))
  | [] => .ok []
  | entry :: rest => do return (← evaluateEntry env entry) :: (← evaluateEntries env rest)

def evaluateEntry (env : Environment) :
    String × Expression → Except ExecutionFault (String × Value)
  | (key, e) => do return (key, ← e.evaluate env)

end

end Expression

namespace Environment

variable {b : Cypher.Bindings} {world : World} {t : Traverser}

/-- What is found under a name are the labelled objects, where nothing stands before them. -/
theorem seenFrom_eq (exposes : world.Exposes t b) :
    seenFrom b world t = onPath b world.store.graph t := by
  have found (name : String) (kind : NameKind) (declared : Dictionary.get? name b = some kind)
      (pop : Pop) : world.named? t pop name = t.pathValue? pop name := by
    obtain ⟨noEntry, noSideEffect⟩ := exposes name (by simp [declared])
    simp [World.named?, noEntry, noSideEffect]
  have value (name : String) :
      (seenFrom b world t).value? name = (onPath b world.store.graph t).value? name := by
    cases declared : Dictionary.get? name b with
    | none => simp [seenFrom, onPath, declared]
    | some kind =>
        cases kind <;>
          simp [seenFrom, onPath, declared, found name _ declared, Traverser.pathValue?]
  simpa [seenFrom, onPath] using funext value

theorem onPath_covers (g : Graph) (binds : t.Binds b) : (onPath b g t).Covers b := by
  intro name declared
  obtain ⟨kind, declared⟩ := Option.isSome_iff_exists.mp declared
  by_cases several : kind = .relationships
  · simp [onPath, declared, several]
  · have some_ := binds name kind declared several
    have last : (onPath b g t).value? name = (t.labelled name).getLast? := by
      cases kind <;> simp_all [onPath]
    rw [last, List.getLast?_isSome]
    exact some_

end Environment

end PropertyGraph
