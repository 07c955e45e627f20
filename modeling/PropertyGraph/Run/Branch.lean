import PropertyGraph.Run.Exec
import PropertyGraph.Function.Apply

/-!
Steps that send traversers through sub-traversals, and the loop. A loop works round by round; a
traverser leaves it when a modulator says so.
-/

namespace PropertyGraph.Application

open Exec

def runAll (t : Traverser) : List Child → Exec Stream
  | [] => pure []
  | child :: rest => do return (← child.run [t]) ++ (← runAll t rest)

/-- The results of the first sub-traversal that has any. -/
def runFirst (t : Traverser) : List Child → Exec Stream
  | [] => pure []
  | child :: rest => do
      let results ← child.run [t]
      if results.isEmpty then runFirst t rest else return results

def union (a : Application) : Stream → Exec Stream := forEach fun t => runAll t a.children

def coalesce (a : Application) : Stream → Exec Stream := forEach fun t => runFirst t a.children

def optional (a : Application) (stream : Stream) : Exec Stream := do
  let child ← a.child 0
  forEach (fun t => do
    let results ← child.run [t]
    return if results.isEmpty then [t] else results) stream

def flatMap (a : Application) (stream : Stream) : Exec Stream := do
  let child ← a.child 0
  forEach (fun t => child.run [t]) stream

def sideEffect (a : Application) (stream : Stream) : Exec Stream := do
  let child ← a.child 0
  forEach (fun t => do
    let _ ← child.run [t]
    return [t]) stream

def map (a : Application) (stream : Stream) : Exec Stream :=
  match a.arguments with
  | .function f :: _ => mapEach (fun t => liftFault .function (f.apply t.object)) stream
  | _ => do
      let child ← a.child 0
      forEach (fun t => do
        return ((← child.first? t).map t.split).toList) stream

/-- The sub-traversal at an index if there is one, and the traverser itself otherwise. -/
def branch (a : Application) (index : Nat) (t : Traverser) : Exec Stream :=
  match a.children[index]? with
  | some child => child.run [t]
  | none => pure [t]

/-- The branch of the first option that picks the value. -/
def pick (t : Traverser) (choice : Value) : List Modulation → Exec Stream
  | [] => pure [t]
  | option :: rest => do
      let value ← Arguments.value .option option.arguments 0
      if value = choice then
        match option.children with
        | child :: _ => child.run [t]
        | [] => throw .optionWithoutTraversal
      else pick t choice rest

def chooseOne (a : Application) (t : Traverser) : Exec Stream :=
  match a.predicate? 0, a.children with
  | some p, _ =>
      if p.test t.object then do (← a.child 0).run [t] else a.branch 1 t
  | none, [choice] => do
      pick t ((← choice.first? t).getD .null) (a.modulationsOf .option)
  | none, _ => do
      if ← (← a.child 0).hasResult t then (← a.child 1).run [t] else a.branch 2 t

def choose (a : Application) : Stream → Exec Stream := forEach a.chooseOne

inductive LoopEnd where
  | holds (condition : Child)
  /-- The body has no results. -/
  | exhausted

structure Loop where
  body : Child
  times : Option Nat
  /-- With whether it is asked before each round. -/
  until_ : Option (LoopEnd × Bool)
  emit : Option (Option Child × Bool)

namespace Loop

def leaves (loop : Loop) (before : Bool) (t : Traverser) : Exec Bool :=
  match loop.until_ with
  | some (.holds condition, asked) =>
      if asked = before then condition.hasResult t else pure false
  | _ => pure false

def emits (loop : Loop) (before : Bool) (t : Traverser) : Exec Bool :=
  match loop.emit with
  | some (condition, asked) =>
      if asked = before then
        match condition with
        | some condition => condition.hasResult t
        | none => pure true
      else pure false
  | none => pure false

def isDone (loop : Loop) (t : Traverser) : Bool := loop.times.any (· ≤ t.loopCount)

/-- Results and traversers that go on, one traverser after another. -/
def sift (f : Traverser → Exec (Stream × Stream)) : Stream → Exec (Stream × Stream)
  | [] => pure ([], [])
  | t :: rest => do
      let (results, next) ← f t
      let (moreResults, moreNext) ← sift f rest
      return (results ++ moreResults, next ++ moreNext)

def stay (loop : Loop) (before : Bool) (t : Traverser) : Exec (Stream × Stream) := do
  if ← loop.leaves before t then return ([t.exitLoop], [])
  if ← loop.emits before t then return ([t.exitLoop], [t])
  return ([], [t])

/-- One pass through the body. -/
def pass (loop : Loop) (t : Traverser) : Exec (Stream × Stream) := do
  let results ← loop.body.run [t]
  match results, loop.until_ with
  | [], some (.exhausted, _) => return ([t.exitLoop], [])
  | results, _ => return ([], results.map (·.countLoop))

def settle (loop : Loop) (t : Traverser) : Exec (Stream × Stream) :=
  if loop.isDone t then pure ([t.exitLoop], []) else loop.stay false t

/-- So many rounds at most; traversers that are left after them are a fault. -/
def rounds (loop : Loop) (limit : Nat) : Nat → Stream → Exec Stream
  | left, stream => do
      let (early, next) ← sift (loop.stay true) stream
      if next.isEmpty then return early
      match left with
      | 0 => throw (.loopLimit limit)
      | left + 1 =>
          let (exhausted, produced) ← sift loop.pass next
          let (late, next) ← sift loop.settle produced
          return early ++ exhausted ++ late ++ (← rounds loop limit left next)

end Loop

def loopTimes (a : Application) : Exec (Option Nat) :=
  match a.last? .times with
  | none => pure none
  | some m => do
      let n ← Arguments.integer .times m.arguments 0
      if n.toInt < twoTo 32 then return some n.toInt.toNat else throw (.timesOutOfRange n)

def repeat_ (limit : Nat) (a : Application) (stream : Stream) : Exec Stream := do
  let body ← a.child 0
  let times ← a.loopTimes
  let until_ := (a.last? .until_).map fun m =>
    (match m.children with
      | condition :: _ => .holds condition
      | [] => .exhausted, m.before)
  let emit := (a.last? .emit).map fun m => (m.children.head?, m.before)
  Loop.rounds ⟨body, times, until_, emit⟩ limit limit (stream.map (·.enterLoop))

def loops : Stream → Exec Stream := mapEach fun t => return .ofNat t.loopCount

end PropertyGraph.Application
