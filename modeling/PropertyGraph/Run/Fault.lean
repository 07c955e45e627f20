import PropertyGraph.Formula.Evaluate
import PropertyGraph.Graph.Basic
import PropertyGraph.Program.Basic

/-!
What can go wrong while a plan runs.
-/

namespace PropertyGraph

inductive ExecutionFault where
  | missing (element : MissingElement)
  | misplacedEdges
  | function (fault : Function.Fault)
  | formula (fault : Formula.Fault)
  | notBound
  | loopModulatorWithoutLoop (kind : StepKind)
  | modulatorWithoutStep (kind : StepKind)
  | invalidArgument (kind : StepKind) (index : Nat)
  | missingTraversal (kind : StepKind) (index : Nat)
  | propertyWithoutTraversal
  | optionWithoutTraversal
  | inapplicable (kind : StepKind) (type : String)
  | notVertex (type : String)
  | notElement (type : String)
  | notNumber (kind : StepKind) (type : String)
  | unboundEnd (label : String)
  | unboundVariable (name : String)
  | unknownSideEffect (key : String)
  | projectWithoutValue (key : String)
  | groupWithoutKey
  | orderWithoutKey
  | disordered (orders : List SortOrder) (keys : List (List Value))
  | timesOutOfRange (n : Int64)
  | loopLimit (limit : Nat)
  | propertyToken (token : ElementToken)
  | propertyKeyNotText (got : Option Value)
  | propertyWithoutValue (key : String)
  | rowNotMap (type : String)
  | columnNotText (type : String)

namespace ExecutionFault

def inspectOption : Option Value → String
  | some value => "Some(" ++ value.inspect ++ ")"
  | none => "None"

def message : ExecutionFault → String
  | missing element => element.message
  | misplacedEdges => "Edge graph step can only be at the start of traversal"
  | function fault => fault.message
  | formula fault => fault.message
  | notBound => "anonymous traversal cannot be executed without a graph"
  | loopModulatorWithoutLoop kind => kind.name ++ "() must modulate a repeat() step"
  | modulatorWithoutStep kind => kind.name ++ "() has no step to modulate"
  | invalidArgument kind index => kind.name ++ "(): invalid argument " ++ natText index
  | missingTraversal kind index =>
      kind.name ++ "() is missing traversal argument " ++ natText index
  | propertyWithoutTraversal => "property() is missing a traversal argument"
  | optionWithoutTraversal => "option() is missing its traversal"
  | inapplicable kind type => kind.name ++ "() cannot be applied to a " ++ type
  | notVertex type => "expected a vertex, got " ++ type
  | notElement type => "expected an element, got " ++ type
  | notNumber kind type => kind.name ++ "() requires numbers, got " ++ type
  | unboundEnd label => "addE(): step label '" ++ label ++ "' is not bound"
  | unboundVariable name => "math(): variable '" ++ name ++ "' is not bound to a number"
  | unknownSideEffect key => "cap(): side-effect '" ++ key ++ "' does not exist"
  | projectWithoutValue key => "project('" ++ key ++ "'): by() traversal produced no value"
  | groupWithoutKey => "group(): key traversal produced no value"
  | orderWithoutKey => "order(): by() traversal produced no value"
  | disordered _ _ => "执行任务失败: task panicked with message " ++
      Text.quoted "user-provided comparison function does not correctly implement a total order"
  | timesOutOfRange n => "times(" ++ Text.ofInt64 n ++ ") is out of range"
  | loopLimit limit => "repeat() exceeded the maximum of " ++ natText limit ++ " iterations"
  | propertyToken token =>
      "property(T." ++ token.name ++ ") cannot modify an existing element"
  | propertyKeyNotText got =>
      "property(): key traversal must produce a string, got " ++ inspectOption got
  | propertyWithoutValue key => "property('" ++ key ++ "'): value traversal produced no value"
  | rowNotMap type => "结果行必须是映射, 实际为 " ++ type
  | columnNotText type => "结果列名必须是字符串, 实际为 " ++ type

end ExecutionFault

end PropertyGraph
