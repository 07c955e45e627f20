import PropertyGraph.Number.Binary64

/-!
Decimal text of numbers. `shortest` finds the fewest digits that read back, nearest to the number;
a `Layout` says how they are set out. Reading takes a sign, digits with an optional point and an
exponent, or the names of the special numbers, and rounds once.
-/

namespace PropertyGraph

def digitChars (n : Nat) : List Char := Nat.toDigits 10 n

def natText (n : Nat) : String := String.ofList (digitChars n)

def intChars (i : Int) : List Char :=
  if i < 0 then '-' :: digitChars i.natAbs else digitChars i.natAbs

def intText (i : Int) : String := String.ofList (intChars i)

def isDigit (c : Char) : Bool := decide ('0' ≤ c) && decide (c ≤ '9')

theorem digitChars_isDigit (n : Nat) : ∀ c ∈ digitChars n, isDigit c = true :=
  fun _ member => Nat.isDigit_of_mem_toDigits (by decide) (by decide) member

def digitsValue (digits : List Char) : Nat := Nat.ofDigitChars 10 digits 0

/-- A 64-bit integer: an optional sign and digits, nothing else. -/
def readInt64? (text : List Char) : Option Int64 :=
  let (negative, digits) := match text with
    | '-' :: rest => (true, rest)
    | '+' :: rest => (false, rest)
    | rest => (false, rest)
  if digits.isEmpty || !digits.all isDigit then none
  else
    int64? (if negative then -(digitsValue digits : Int) else digitsValue digits)

namespace Decimal

/-- `digits * 10 ^ exponent`. -/
structure Digits where
  digits : Nat
  exponent : Int

/-- The rounding interval of a positive number, in quarters of the smallest unit. -/
structure Interval where
  low : Nat
  value : Nat
  high : Nat
  closed : Bool

def Interval.of (x : Binary64) : Interval :=
  let step := twoTo x.unit
  let below := if x.significand = twoTo 52 && x.unit != 0 then step else 2 * step
  ⟨4 * x.units - below, 4 * x.units, 4 * x.units + 2 * step, x.significand % 2 == 0⟩

/-- Quarters of the smallest unit in one. -/
def quarters : Nat := twoTo 1076

/-- Least number of decimal shifts that bring the value to one or more. -/
def leadingShift (value : Nat) : Nat → Nat
  | 0 => 0
  | fuel + 1 => if quarters ≤ value then 0 else leadingShift (10 * value) fuel + 1

/-- Position of the decimal point before the first digit. -/
def pointOf (value : Nat) : Int :=
  if quarters ≤ value then ((digitChars (value / quarters)).length : Int)
  else 1 - (leadingShift value 400 : Int)

/-- The nearer of the two neighbours on a decimal grid, among those that read back. -/
def onGrid (interval : Interval) (tieUp : Bool) (exponent : Int) : Option Nat :=
  let scale := tenTo (-exponent).toNat
  let grid := tenTo exponent.toNat * quarters
  let value := interval.value * scale
  let inside (n : Nat) : Bool :=
    if interval.closed then interval.low * scale ≤ n * grid && n * grid ≤ interval.high * scale
    else interval.low * scale < n * grid && n * grid < interval.high * scale
  let under := value / grid
  let upNearer : Bool :=
    let toUnder := value - under * grid
    let toOver := (under + 1) * grid - value
    decide (toOver < toUnder) || (toOver == toUnder && (tieUp || under % 2 == 1))
  if inside under && inside (under + 1) then some (if upNearer then under + 1 else under)
  else if inside under then some under
  else if inside (under + 1) then some (under + 1)
  else none

def search (interval : Interval) (tieUp : Bool) (point : Int) (count : Nat) : Nat → Digits
  | 0 => ⟨interval.value / quarters, 0⟩
  | fuel + 1 =>
      match onGrid interval tieUp (point - count) with
      | some digits => ⟨digits, point - count⟩
      | none => search interval tieUp point (count + 1) fuel

def stripZeros (d : Digits) : Nat → Digits
  | 0 => d
  | fuel + 1 =>
      if d.digits % 10 = 0 then stripZeros ⟨d.digits / 10, d.exponent + 1⟩ fuel else d

/-- The fewest digits that read back as the magnitude of a finite nonzero number. -/
def shortest (tieUp : Bool) (x : Binary64) : Digits :=
  let interval := Interval.of x
  stripZeros (search interval tieUp (pointOf interval.value) 1 20) 20

/-- How digits are set out: the range of the point written positionally, the sign of a positive
exponent, which way an exact tie goes, and the texts of what is not finite. -/
structure Layout where
  leastPoint : Int
  greatestPoint : Int
  exponentSign : Bool
  tieUp : Bool
  nan : String
  infinity : String

def layDigits (layout : Layout) (d : Digits) : List Char :=
  let digits := digitChars d.digits
  let point := d.exponent + digits.length
  if layout.leastPoint ≤ point && point ≤ layout.greatestPoint then
    if point ≤ 0 then '0' :: '.' :: (List.replicate (-point).toNat '0' ++ digits)
    else if 0 ≤ d.exponent then digits ++ List.replicate d.exponent.toNat '0' ++ ['.', '0']
    else digits.take point.toNat ++ '.' :: digits.drop point.toNat
  else
    let exponent := point - 1
    let mantissa := match digits with
      | [] => []
      | first :: [] => [first]
      | first :: rest => first :: '.' :: rest
    let sign := if 0 ≤ exponent && layout.exponentSign then ['+'] else []
    mantissa ++ 'e' :: (sign ++ intChars exponent)

def render (layout : Layout) (x : Binary64) : String :=
  if x.isNaN then layout.nan
  else
    let sign := if x.negative then ['-'] else []
    let body :=
      if x.isInfinite then layout.infinity.toList
      else if x.isZero then ['0', '.', '0']
      else layDigits layout (shortest layout.tieUp x)
    String.ofList (sign ++ body)

/-- A number with a fixed count of decimal places, a half to the even digit. -/
def fixed (places : Nat) (x : Binary64) : String :=
  if x.isNaN then "NaN"
  else
    let sign := if x.negative then "-" else ""
    if x.isInfinite then sign ++ "inf"
    else
      let count := Binary64.divNearest (x.units * tenTo places) (twoTo 1074)
      let digits := digitChars (count % tenTo places)
      let fraction := List.replicate (places - digits.length) '0' ++ digits
      sign ++ natText (count / tenTo places) ++ String.ofList ('.' :: fraction)

/-- `digits * 10 ^ exponent` rounded once. -/
def toBinary (negative : Bool) (digits : Nat) (exponent : Int) : Binary64 :=
  let size := (digitChars digits).length + exponent
  if digits = 0 || size < -400 then Binary64.zero negative
  else if 400 < size then Binary64.infinity negative
  else
    Binary64.round negative (digits * tenTo exponent.toNat * twoTo 1074) (tenTo (-exponent).toNat)

def readExponent? : List Char → Option Int
  | [] => some 0
  | c :: rest =>
      if c = 'e' || c = 'E' then
        let (negative, digits) := match rest with
          | '-' :: digits => (true, digits)
          | '+' :: digits => (false, digits)
          | digits => (false, digits)
        if digits.isEmpty || !digits.all isDigit then none
        else if negative then some (-(digitsValue digits : Int))
        else some (digitsValue digits)
      else none

def readMagnitude? (negative : Bool) (text : List Char) : Option Binary64 :=
  let whole := text.takeWhile isDigit
  let (fraction, rest) := match text.dropWhile isDigit with
    | '.' :: tail => (tail.takeWhile isDigit, tail.dropWhile isDigit)
    | tail => ([], tail)
  if whole.isEmpty && fraction.isEmpty then none
  else do
    let exponent ← readExponent? rest
    some (toBinary negative (digitsValue (whole ++ fraction)) (exponent - fraction.length))

/-- A decimal number, or one of the names `inf`, `infinity` and `nan` in any letter case. -/
def read? (text : List Char) : Option Binary64 :=
  let (negative, body) := match text with
    | '-' :: rest => (true, rest)
    | '+' :: rest => (false, rest)
    | rest => (false, rest)
  let name := String.ofList (body.map Char.toLower)
  if name == "inf" || name == "infinity" then some (Binary64.infinity negative)
  else if name == "nan" then
    some (Binary64.ofMagnitude negative (Binary64.nan.magnitude))
  else readMagnitude? negative body

end Decimal

end PropertyGraph
