import PropertyGraph.Plan.Basic
import PropertyGraph.Run.Arrange
import PropertyGraph.Run.Branch
import PropertyGraph.Run.Effect

/-!
Running plans. What a step does follows from its kind, its arguments and what its sub-traversals
do; a plan does what its stages do one after another, unless loop modulators are left over.
-/

namespace PropertyGraph

open Exec

def Application.perform (engine : Engine) (a : Application) (stream : Stream) : Exec Stream :=
  match a.kind with
  | .v => vertices stream
  | .e => throw .misplacedEdges
  | .addV => a.addV stream
  | .addE => a.addE stream
  | .aggregate => a.aggregate stream
  | .and => a.and stream
  | .as_ => a.as_ stream
  | .barrier => pure stream
  | .bothE => a.bothE stream
  | .cap => a.cap
  | .choose => a.choose stream
  | .coalesce => a.coalesce stream
  | .constant => a.constant stream
  | .count => a.count stream
  | .dedup => a.dedup stream
  | .drop => a.drop stream
  | .flatMap => a.flatMap stream
  | .fold => fold stream
  | .group => a.group stream
  | .has => a.has stream
  | .hasKey => a.hasKey stream
  | .hasLabel => a.hasLabel stream
  | .hasNot => a.hasNot stream
  | .id => Application.id stream
  | .identity => pure stream
  | .inE => a.inE stream
  | .inV => a.inV stream
  | .index => Application.index stream
  | .inject => a.inject stream
  | .is_ => a.matching stream
  | .key => a.key stream
  | .label => a.label stream
  | .limit => a.limit stream
  | .local_ => a.flatMap stream
  | .loops => loops stream
  | .map => a.map stream
  | .math => a.math stream
  | .max => a.reduce stream
  | .mean => a.reduce stream
  | .min => a.reduce stream
  | .not => a.not stream
  | .optional => a.optional stream
  | .or => a.or stream
  | .order => a.order engine stream
  | .otherV => a.otherV stream
  | .outE => a.outE stream
  | .outV => a.outV stream
  | .path => path stream
  | .project => a.project stream
  | .properties => a.properties stream
  | .property => a.property stream
  | .range => a.range stream
  | .repeat_ => a.repeat_ engine.loopLimit stream
  | .select => a.select stream
  | .sideEffect => a.sideEffect stream
  | .simplePath => simplePath stream
  | .skip => a.skip stream
  | .sum => a.reduce stream
  | .tail => a.tail stream
  | .unfold => unfold stream
  | .union => a.union stream
  | .value => a.propertyValue stream
  | .valueMap => a.valueMap stream
  | .values => a.values stream
  | .where_ => a.where_ stream
  | .by_ | .emit | .from_ | .option | .times | .to_ | .until_ | .with_ =>
      throw (.modulatorWithoutStep a.kind)

namespace Plan

mutual

def run (engine : Engine) : Plan → Stream → Exec Stream
  | .mk stages [] => runStages engine stages
  | .mk _ (.mk step _ _ :: _) => fun _ => throw (.loopModulatorWithoutLoop step.kind)

def runStages (engine : Engine) : List Stage → Stream → Exec Stream
  | [] => pure
  | stage :: rest => fun stream => do runStages engine rest (← runStage engine stage stream)

def runStage (engine : Engine) : Stage → Stream → Exec Stream
  | .vertices => fun _ => return (← graph).vertices.map fun v => .start (.vertex v.ref)
  | .edges => fun _ => return (← graph).edges.map fun e => .start (.edge e.ref)
  | .addVertex label => fun _ => return [.start (← createVertex label)]
  | .apply step children modulators =>
      Application.perform engine
        ⟨step.kind, step.arguments, runChildren engine children, modulations engine modulators⟩

def runChildren (engine : Engine) : List Plan → List Child
  | [] => []
  | plan :: rest => ⟨run engine plan, plan.isReducing⟩ :: runChildren engine rest

def modulations (engine : Engine) : List Modulator → List Modulation
  | [] => []
  | modulator :: rest => modulation engine modulator :: modulations engine rest

def modulation (engine : Engine) : Modulator → Modulation
  | .mk step children before => ⟨step.kind, step.arguments, runChildren engine children, before⟩

end

/-- Runs from an empty stream with no side effects remembered. -/
def execute (engine : Engine) (plan : Plan) (store : Store) :
    Except ExecutionFault (List Value) × Store :=
  match (plan.run engine []).run ⟨store, []⟩ with
  | (.ok stream, world) => (.ok (objects stream), world.store)
  | (.error fault, world) => (.error fault, world.store)

end Plan

/-- Runs a traversal that is bound to a graph. -/
def Live.execute (engine : Engine) (l : Live) (store : Store) :
    Except ExecutionFault (List Value) × Store :=
  if l.bound then l.plan.execute engine store else (.error .notBound, store)

end PropertyGraph
