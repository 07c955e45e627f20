import PropertyGraph.Run.Exec
import PropertyGraph.Run.Sorter
import PropertyGraph.Value.Order

/-!
Steps that sort a stream or take a part of it. How a stream is sorted or shuffled is up to the
engine; a sort that gives up is a fault.
-/

namespace PropertyGraph.Application

open Exec

structure Criterion where
  child : Option Child
  order : SortOrder

def orderArgument? : Argument → Option SortOrder
  | .order o => some o
  | _ => none

def criterion (m : Modulation) : Criterion :=
  ⟨m.children.head?, (m.arguments.findSome? orderArgument?).getD .asc⟩

def criteria (a : Application) : List Criterion :=
  match (a.modulationsOf .by_).map criterion with
  | [] => [⟨none, .asc⟩]
  | criteria => criteria

def directed (order : SortOrder) (result : Ordering) : Ordering :=
  if order = .desc then result.swap else result

/-- Compares keys one by one; the first difference decides. -/
def compareKeys : List Criterion → List Value → List Value → Ordering
  | c :: criteria, a :: as, b :: bs =>
      (directed c.order (a.order b)).then (compareKeys criteria as bs)
  | _, _, _ => .eq

def sortKeys (t : Traverser) : List Criterion → Exec (List Value)
  | [] => pure []
  | c :: rest => do
      let key ← Child.valueOr c.child .orderWithoutKey t
      return key :: (← sortKeys t rest)

def withSortKeys (criteria : List Criterion) : Stream → Exec (List (List Value × Traverser))
  | [] => pure []
  | t :: rest => do
      let keys ← sortKeys t criteria
      return (keys, t) :: (← withSortKeys criteria rest)

def order (engine : Engine) (a : Application) (stream : Stream) : Exec Stream := do
  let keyed ← withSortKeys a.criteria stream
  if a.criteria.any (·.order == .shuffle) then return engine.shuffle.apply (keyed.map (·.2))
  match engine.sorter.sort (fun x y => compareKeys a.criteria x.1 y.1) keyed with
  | some sorted => return sorted.map (·.2)
  | none => throw (.disordered (a.criteria.map (·.order)) (keyed.map (·.1)))

/-- A bound that is not negative, in 64 bits. -/
def bound (n : Int64) : Nat := n.toInt.toNat

/-- The items from one position to below another; a negative end is no end. -/
def slice {α : Type} (low high : Int64) (items : List α) : List α :=
  let rest := items.drop (bound low)
  if high.toInt < 0 then rest else rest.take (bound high - bound low)

/-- A slice of a list; a slice of one place is its item, if it is there. -/
def localSlice (low high : Int64) (t : Traverser) : Option Traverser :=
  match t.object with
  | .list items =>
      if 0 ≤ high.toInt ∧ bound high - bound low = 1 then (slice low high items).head?.map t.split
      else some (t.split (.list (slice low high items)))
  | _ => some t

def window (scope : Scope) (low high : Int64) (stream : Stream) : Stream :=
  match scope with
  | .global => slice low high stream
  | .local_ => stream.filterMap (localSlice low high)

def range (a : Application) (stream : Stream) : Exec Stream := do
  let low ← Arguments.scopedInteger a.kind a.arguments 0
  let high ← Arguments.scopedInteger a.kind a.arguments 1
  return window a.scope low high stream

def limit (a : Application) (stream : Stream) : Exec Stream := do
  let high ← Arguments.scopedInteger a.kind a.arguments 0
  return window a.scope 0 high stream

def skip (a : Application) (stream : Stream) : Exec Stream := do
  return stream.drop (bound (← Arguments.integer a.kind a.arguments 0))

def lastItems {α : Type} (n : Nat) (items : List α) : List α := items.drop (items.length - n)

def localTail (n : Nat) (t : Traverser) : Option Traverser :=
  match t.object with
  | .list items =>
      if n = 1 then (lastItems n items).head?.map t.split
      else some (t.split (.list (lastItems n items)))
  | _ => some t

def tail (a : Application) (stream : Stream) : Exec Stream := do
  let n := bound (← Arguments.scopedInteger a.kind a.arguments 0)
  match a.scope with
  | .global => return lastItems n stream
  | .local_ => return stream.filterMap (localTail n)

end PropertyGraph.Application
