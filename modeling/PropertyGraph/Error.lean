import PropertyGraph.Cypher.Lexical
import PropertyGraph.Cypher.Scope
import PropertyGraph.Run.Fault

/-!
Errors as they are reported: the kind, and the message with the heading of the kind.
-/

namespace PropertyGraph

inductive ErrorKind where
  | illegalState
  | illegalArgument
  | parse
  | compilation
  | execution
  | notFound
  | internal
deriving DecidableEq

def ErrorKind.heading : ErrorKind → String
  | .illegalState => "非法状态"
  | .illegalArgument => "非法参数"
  | .parse => "解析错误"
  | .compilation => "翻译错误"
  | .execution => "执行错误"
  | .notFound => "未找到"
  | .internal => "内部错误"

def BuildFault.kind : BuildFault → ErrorKind
  | .misplacedEdges => .illegalState
  | .projectWithoutKeys => .illegalArgument
  | .selectWithoutKeys => .illegalArgument

def ExecutionFault.kind : ExecutionFault → ErrorKind
  | .missing _ => .notFound
  | .misplacedEdges => .illegalState
  | .disordered _ _ => .internal
  | _ => .execution

inductive Error where
  | build (fault : BuildFault)
  | parse (fault : ParseFault)
  | compilation (fault : CompileFault)
  | missing (element : MissingElement)
  | execution (fault : ExecutionFault)

namespace Error

def kind : Error → ErrorKind
  | .build fault => fault.kind
  | .parse _ => .parse
  | .compilation _ => .compilation
  | .missing _ => .notFound
  | .execution fault => fault.kind

def detail : Error → String
  | .build fault => fault.message
  | .parse fault => fault.message
  | .compilation fault => fault.message
  | .missing element => element.message
  | .execution fault => fault.message

def message (e : Error) : String := e.kind.heading ++ ": " ++ e.detail

end Error

end PropertyGraph
