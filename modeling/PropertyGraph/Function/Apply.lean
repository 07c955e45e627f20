import PropertyGraph.Function.Basic
import PropertyGraph.Number.Arithmetic
import PropertyGraph.Text.CharClass
import PropertyGraph.Value.Order

/-!
Applying functions. An unknown operand makes the result unknown, except that `and` and `or` follow
three-valued logic. Arithmetic on two integers is exact within 64 bits and fails otherwise; with a
floating-point operand it is done in double precision.
-/

namespace PropertyGraph.Function

/-- The integer part toward zero, held within 64 bits; zero for what is no number. -/
def integerPart (x : Binary64) : Int64 :=
  if x.isNaN then 0
  else if x.isInfinite then if x.negative then Int64.minValue else Int64.maxValue
  else clampInt64 x.truncate

def operandFault (f : Function) (value : Value) : Fault := .operand f value.typeName

def applyUnary (f : Function) (value : Value) : Except Fault Value :=
  match f, value with
  | .toString, .string s => .ok (.string s)
  | .toString, .int i => .ok (.string (Value.int i).text)
  | .toString, .float x => .ok (.string (Value.float x).text)
  | .toString, .bool b => .ok (.string (Value.bool b).text)
  | .toInteger, .int i => .ok (.int i)
  | .toInteger, .float x => .ok (.int (integerPart x))
  | .toInteger, .string s =>
      let body := Text.trim s.toList
      match readInt64? body with
      | some i => .ok (.int i)
      | none => match Decimal.read? body with
          | some x => .ok (.int (integerPart x))
          | none => .ok Value.unknown
  | .toFloat, .float x => .ok (.float x)
  | .toFloat, .int i => .ok (.float (Binary64.ofInt i.toInt))
  | .toFloat, .string s =>
      match Decimal.read? (Text.trim s.toList) with
      | some x => .ok (.float x)
      | none => .ok Value.unknown
  | .toBoolean, .bool b => .ok (.bool b)
  | .toBoolean, .string s =>
      let body := (Text.trim s.toList).map Char.toLower
      if body = ['t', 'r', 'u', 'e'] then .ok (.bool true)
      else if body = ['f', 'a', 'l', 's', 'e'] then .ok (.bool false)
      else .ok Value.unknown
  | .size, .string s => .ok (Value.ofNat s.length)
  | .size, .list items => .ok (Value.ofNat items.length)
  | .size, .map entries => .ok (Value.ofNat entries.length)
  | .not, .bool b => .ok (.bool !b)
  | f, value => .error (operandFault f value)

/-- Conjunction and disjunction: an operand equal to `decisive` settles the result. -/
def connective (f : Function) (decisive : Bool) (left right : Value) : Except Fault Value := do
  let first ← truth left
  if first = some decisive then return .bool decisive
  let second ← truth right
  if second = some decisive then return .bool decisive
  if first.isNone || second.isNone then return Value.unknown
  return .bool !decisive
where
  truth (value : Value) : Except Fault (Option Bool) :=
    match value with
    | .bool b => .ok (some b)
    | value => if value.isUnknown then .ok none else .error (operandFault f value)

/-- The remainder with the sign of the dividend, refused where the quotient does not fit. -/
def checkedRemainder (a b : Int) : Option Int64 := do
  let _ ← int64? (a.tdiv b)
  int64? (a.tmod b)

def arithmetic (f : Function) (onIntegers : Int → Int → Option Int64)
    (onFloats : Binary64 → Binary64 → Binary64) (left right : Value) : Except Fault Value :=
  match left, right with
  | .int a, .int b =>
      match onIntegers a.toInt b.toInt with
      | some i => .ok (.int i)
      | none => .error (.overflow f)
  | left, right =>
      match left.number?, right.number? with
      | some x, some y => .ok (.float (onFloats x y))
      | _, _ => .error (.operands f left.typeName right.typeName)

def add (left right : Value) : Except Fault Value :=
  match left, right with
  | .string a, b => .ok (.string (a ++ b.text))
  | a, .string b => .ok (.string (a.text ++ b))
  | .list as, .list bs => .ok (.list (as ++ bs))
  | .list as, b => .ok (.list (as ++ [b]))
  | a, b => arithmetic .plus (fun x y => int64? (x + y)) Binary64.add a b

/-- Two numbers, two texts or two booleans. -/
def areComparable (left right : Value) : Bool :=
  match left, right with
  | .string _, .string _ => true
  | .bool _, .bool _ => true
  | left, right => left.isNumber && right.isNumber

def ordering (accept : Ordering → Bool) (left right : Value) : Value :=
  if areComparable left right then .bool (accept (left.order right)) else Value.unknown

def applyBinary (f : Function) (left right : Value) : Except Fault Value :=
  match f with
  | .plus => add left right
  | .minus => arithmetic f (fun x y => int64? (x - y)) Binary64.sub left right
  | .multiply => arithmetic f (fun x y => int64? (x * y)) Binary64.mul left right
  | .divide =>
      if right = .int 0 then .error .divisionByZero
      else arithmetic f (fun x y => int64? (x.tdiv y)) Binary64.div left right
  | .modulo =>
      if right = .int 0 then .error .remainderByZero
      else arithmetic f checkedRemainder Binary64.rem left right
  | .xor =>
      match left, right with
      | .bool a, .bool b => .ok (.bool (a != b))
      | .bool _, other => .error (operandFault f other)
      | other, _ => .error (operandFault f other)
  | .equals => .ok (.bool (left.order right == .eq))
  | .notEquals => .ok (.bool (left.order right != .eq))
  | .less => .ok (ordering (· == .lt) left right)
  | .lessOrEqual => .ok (ordering (· != .gt) left right)
  | .greater => .ok (ordering (· == .gt) left right)
  | .greaterOrEqual => .ok (ordering (· != .lt) left right)
  | f => .error (.notAPair f (.list [left, right]))

def isUnary : Function → Bool
  | .toString | .toInteger | .toFloat | .toBoolean | .size | .not => true
  | _ => false

/-- A function of two operands takes them as a list. -/
def apply (f : Function) (value : Value) : Except Fault Value :=
  if f.isUnary then
    if value.isUnknown then .ok Value.unknown else applyUnary f value
  else
    match value with
    | .list [left, right] =>
        match f with
        | .and => connective f false left right
        | .or => connective f true left right
        | f =>
            if left.isUnknown || right.isUnknown then .ok Value.unknown
            else applyBinary f left right
    | value => .error (.notAPair f value)

end PropertyGraph.Function
