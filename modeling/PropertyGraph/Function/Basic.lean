import PropertyGraph.Program.Family
import PropertyGraph.Value.Text

/-!
The functions that expressions are made of, and the ways in which they fail.
-/

namespace PropertyGraph

inductive Function where
  | toString
  | toInteger
  | toFloat
  | toBoolean
  | size
  | not
  | and
  | or
  | xor
  | plus
  | minus
  | multiply
  | divide
  | modulo
  | equals
  | notEquals
  | less
  | lessOrEqual
  | greater
  | greaterOrEqual
deriving DecidableEq

namespace Function

def tag : Function → String
  | .toString => "ToString"
  | .toInteger => "ToInteger"
  | .toFloat => "ToFloat"
  | .toBoolean => "ToBoolean"
  | .size => "Size"
  | .not => "Not"
  | .and => "And"
  | .or => "Or"
  | .xor => "Xor"
  | .plus => "Plus"
  | .minus => "Minus"
  | .multiply => "Multiply"
  | .divide => "Divide"
  | .modulo => "Modulo"
  | .equals => "Equals"
  | .notEquals => "NotEquals"
  | .less => "Less"
  | .lessOrEqual => "LessOrEqual"
  | .greater => "Greater"
  | .greaterOrEqual => "GreaterOrEqual"

def all : List Function :=
  [.toString, .toInteger, .toFloat, .toBoolean, .size, .not, .and, .or, .xor, .plus, .minus,
    .multiply, .divide, .modulo, .equals, .notEquals, .less, .lessOrEqual, .greater,
    .greaterOrEqual]

def name (f : Function) : String := "cypher" ++ f.tag

/-- The name as a call. -/
def text (f : Function) : String := f.name ++ "()"

inductive Fault where
  | notAPair (f : Function) (got : Value)
  | divisionByZero
  | remainderByZero
  | overflow (f : Function)
  | operand (f : Function) (type : String)
  | operands (f : Function) (left right : String)

def Fault.message : Fault → String
  | .notAPair f got => f.text ++ " expects a pair of operands, got " ++ got.text
  | .divisionByZero => "/ by zero"
  | .remainderByZero => "% by zero"
  | .overflow f => f.text ++ " overflow"
  | .operand f type => f.text ++ " cannot be applied to a " ++ type
  | .operands f left right => f.text ++ " cannot be applied to " ++ left ++ " and " ++ right

end Function

instance : Family Function := ⟨Function.all, Function.tag⟩

end PropertyGraph
