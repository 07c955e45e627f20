import PropertyGraph.Number.Binary64

/-!
Arithmetic on double-precision numbers. Each basic operation is the exact result rounded once; an
operand that is no number is passed on quietly, the left one first. Powers, exponentials and
logarithms are those of the machine.
-/

namespace PropertyGraph.Binary64

def quiet (x : Binary64) : Binary64 :=
  if x.magnitude / twoTo 51 % 2 = 0 then ofMagnitude x.negative (x.magnitude + twoTo 51) else x

/-- Runs an operation on numbers only. -/
def onNumbers (x y : Binary64) (operation : Binary64) : Binary64 :=
  if x.isNaN then x.quiet else if y.isNaN then y.quiet else operation

def add (x y : Binary64) : Binary64 :=
  onNumbers x y <|
    if x.isInfinite then
      if y.isInfinite && x.negative != y.negative then invalid else x
    else if y.isInfinite then y
    else
      let sum := x.scaled + y.scaled
      if sum = 0 then zero (x.negative && y.negative) else roundInt sum 1

def sub (x y : Binary64) : Binary64 := if y.isNaN then add x y else add x y.neg

def mul (x y : Binary64) : Binary64 :=
  onNumbers x y <|
    let sign := x.negative != y.negative
    if x.isInfinite || y.isInfinite then
      if x.isZero || y.isZero then invalid else infinity sign
    else round sign (x.units * y.units) (twoTo 1074)

def div (x y : Binary64) : Binary64 :=
  onNumbers x y <|
    let sign := x.negative != y.negative
    if x.isInfinite then
      if y.isInfinite then invalid else infinity sign
    else if y.isInfinite then zero sign
    else if y.isZero then
      if x.isZero then invalid else infinity sign
    else round sign (x.units * twoTo 1074) y.units

/-- Remainder of the truncated quotient, with the sign of the dividend. -/
def rem (x y : Binary64) : Binary64 :=
  onNumbers x y <|
    if x.isInfinite || y.isZero then invalid
    else if y.isInfinite then x
    else round x.negative (x.units % y.units) 1

/-- The nearest integer not below. -/
def ceil (x : Binary64) : Binary64 :=
  if x.isNaN then x.quiet else if x.isInfinite then x
  else
    let whole := -((-x.scaled).fdiv (twoTo 1074))
    if whole = 0 then zero x.negative else roundInt (whole * twoTo 1074) 1

/-- The nearest integer not above. -/
def floor (x : Binary64) : Binary64 :=
  if x.isNaN then x.quiet else if x.isInfinite then x
  else
    let whole := x.scaled.fdiv (twoTo 1074)
    if whole = 0 then zero x.negative else roundInt (whole * twoTo 1074) 1

def ofMachine (x : Float) : Binary64 := if x.isNaN then invalid else ⟨x.toBits⟩

def toMachine (x : Binary64) : Float := Float.ofBits x.bits

def sqrt (x : Binary64) : Binary64 :=
  if x.isNaN then x.quiet
  else if x.isZero then x
  else if x.negative then invalid
  else ofMachine x.toMachine.sqrt

def exp (x : Binary64) : Binary64 := if x.isNaN then x.quiet else ofMachine x.toMachine.exp

def log (x : Binary64) : Binary64 := if x.isNaN then x.quiet else ofMachine x.toMachine.log

def one : Binary64 := ofInt 1

/-- Powers; anything to the power zero and one to any power is one. -/
def pow (x y : Binary64) : Binary64 :=
  if y.isZero || x = one then one
  else onNumbers x y (ofMachine (x.toMachine.pow y.toMachine))

end PropertyGraph.Binary64
