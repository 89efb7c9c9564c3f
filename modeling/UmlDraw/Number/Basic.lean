/-
# Numbers

A number of a drawing is an integer of any size, an exact fraction or a double.  Integers and
fractions stay exact as long as they meet each other; a sum, difference or product with a double is
a double, and a quotient is always one.  Numbers are compared by value, exactly, whatever their
kinds.

An exact number that is too large for a double cannot meet one.  What an operation gives in that
case is `tooLarge`, which is no value: every operation with it gives `tooLarge` again, so that it
can be found at the end of a computation (`Number.Checked.settled`).
-/
import UmlDraw.Number.Double

namespace UmlDraw

/-- An integer, a fraction, a double, or what is left where there is no value. -/
inductive Number where
  /-- An exact integer. -/
  | int (n : Int)
  /-- An exact fraction. -/
  | ratio (q : Rat)
  /-- A double. -/
  | real (x : Float)
  /-- What an operation gives in which an exact number too large for a double met a double. -/
  | tooLarge

namespace Number

instance : Inhabited Number := ⟨int 0⟩

instance (n : Nat) : OfNat Number n := ⟨int n⟩

instance : Coe Int Number := ⟨int⟩

instance : Coe Rat Number := ⟨ratio⟩

instance : NatCast Number := ⟨fun n => int n⟩

/-- The double nearest to a fraction. -/
def doubleOfRat (q : Rat) : Float :=
  Double.ofRatio (q.num < 0) q.num.natAbs q.den

/-- The nearest double; infinite when the number is too large for one. -/
def toDouble : Number → Float
  | int n => Double.ofInt n
  | ratio q => doubleOfRat q
  | real x => x
  | tooLarge => Double.infinity

/-- The nearest double of a number that is not too large for one. -/
def toDouble? : Number → Option Float
  | real x => some x
  | a =>
    let x := a.toDouble
    if Double.isInfinite x then none else some x

/-- Combines two numbers by an operation on doubles. -/
def combineDoubles (onDouble : Float → Float → Float) (a b : Number) : Number :=
  match a.toDouble?, b.toDouble? with
  | some x, some y => real (onDouble x y)
  | _, _ => tooLarge

/-- Combines two integers, two fractions or two doubles, each by its own operation. -/
def combine (onInt : Int → Int → Int) (onRat : Rat → Rat → Rat) (onDouble : Float → Float → Float) :
    Number → Number → Number
  | int a, int b => int (onInt a b)
  | int a, ratio b => ratio (onRat a b)
  | ratio a, int b => ratio (onRat a b)
  | ratio a, ratio b => ratio (onRat a b)
  | a, b => combineDoubles onDouble a b

instance : Add Number := ⟨combine (· + ·) (· + ·) (· + ·)⟩

instance : Sub Number := ⟨combine (· - ·) (· - ·) (· - ·)⟩

instance : Mul Number := ⟨combine (· * ·) (· * ·) (· * ·)⟩

/-- The quotient of two integers, rounded once. -/
def divInt (a b : Int) : Float :=
  Double.ofRatio (decide (a < 0) != decide (b < 0)) a.natAbs b.natAbs

/-- The quotient, always a double. -/
def div : Number → Number → Number
  | int a, int b =>
    let x := divInt a b
    if Double.isInfinite x then tooLarge else real x
  | a, b => combineDoubles (· / ·) a b

instance : Div Number := ⟨div⟩

/-- The exact value of a double; `none` if it is infinite or no number. -/
def valueOfDouble? (x : Float) : Option Rat :=
  (Double.ratio? x).map fun (num, den) =>
    mkRat (if Double.isNegative x then -(num : Int) else num) den

/-- Compares a fraction with a double by value; `none` if the double is no number. -/
def compareRat (q : Rat) (x : Float) : Option Ordering :=
  match valueOfDouble? x with
  | none =>
    if Double.isNan x then none
    else if Double.isNegative x then some .gt else some .lt
  | some r => some (if q < r then .lt else if q = r then .eq else .gt)

/-- Compares two numbers by value; `none` if one of them has no value. -/
def compare? : Number → Number → Option Ordering
  | int a, int b => some (compare a b)
  | real x, real y =>
    if x < y then some .lt else if x == y then some .eq else if y < x then some .gt else none
  | int a, real y => compareRat a y
  | ratio a, real y => compareRat a y
  | real x, int b => (compareRat b x).map Ordering.swap
  | real x, ratio b => (compareRat b x).map Ordering.swap
  | int a, ratio b => some (if (a : Rat) < b then .lt else if (a : Rat) = b then .eq else .gt)
  | ratio a, int b => some (if a < b then .lt else if a = b then .eq else .gt)
  | ratio a, ratio b => some (if a < b then .lt else if a = b then .eq else .gt)
  | tooLarge, _ => none
  | _, tooLarge => none

/-- Less, by value. -/
def lt (a b : Number) : Bool :=
  compare? a b == some .lt

/-- Equal, by value. -/
def same (a b : Number) : Bool :=
  compare? a b == some .eq

/-- Less or equal, by value. -/
def le (a b : Number) : Bool :=
  a.lt b || a.same b

instance : BEq Number := ⟨same⟩

instance : LT Number := ⟨fun a b => a.lt b = true⟩

instance : LE Number := ⟨fun a b => a.le b = true⟩

instance (a b : Number) : Decidable (a < b) := inferInstanceAs (Decidable (a.lt b = true))

instance (a b : Number) : Decidable (a ≤ b) := inferInstanceAs (Decidable (a.le b = true))

/-- The greater of two numbers; the first one unless the second is above it. -/
def max : Number → Number → Number
  | _, tooLarge => tooLarge
  | a, b => if a < b then b else a

/-- The smaller of two numbers; the first one unless the second is below it. -/
def min : Number → Number → Number
  | _, tooLarge => tooLarge
  | a, b => if b < a then b else a

/-- The greatest number of a non-empty list, the first of equals. -/
def maximum : Number → List Number → Number
  | a, [] => a
  | a, b :: rest => maximum (max a b) rest

/-- The smallest number of a non-empty list, the first of equals. -/
def minimum : Number → List Number → Number
  | a, [] => a
  | a, b :: rest => minimum (min a b) rest

/-- The sum of a list of numbers. -/
def sum (ns : List Number) : Number :=
  ns.foldl (· + ·) 0

/-- Half of a number, a double. -/
def half (a : Number) : Number :=
  a / 2

/-- The integer with the same value, if there is one. -/
def toInt? : Number → Option Int
  | int n => some n
  | ratio q => if q.den = 1 then some q.num else none
  | real x => Double.toInt? x
  | tooLarge => none

/-- The number as an integer where it has the value of one. -/
def clean (x : Float) : Number :=
  match Double.toInt? x with
  | some n => int n
  | none => real x

end Number
end UmlDraw
