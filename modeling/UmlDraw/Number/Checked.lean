/-
# Checked arithmetic

Times are written by hand and may have any number of digits.  The operations of this file compute
like those of `Number`, but report when an exact number is too large to meet a double, when a
division has no result, and when a number has more digits than numbers are read or written with.
-/
import UmlDraw.Data.Fault
import UmlDraw.Number.Decimal

namespace UmlDraw

/-- Why a computation has no result. -/
inductive NumberError where
  /-- An exact number or a quotient is too large for a double. -/
  | tooLarge
  /-- A division by zero. -/
  | divisionByZero
  /-- What should become an integer is no number. -/
  | notInteger
  /-- An integer has too many digits to be read or written. -/
  | tooManyDigits
deriving DecidableEq, Repr

namespace Number

/-- The greatest number of digits of an integer that is read or written. -/
def maxDigits : Nat := 4300

/-- The first natural number with too many digits. -/
def digitBound : Nat := Nat.pow 10 maxDigits

/-- Why a number stands for nothing, if it does. -/
def fault? : Number → Option NumberError
  | tooLarge => some .tooLarge
  | _ => none

/-- Why a number cannot be written, if it cannot. -/
def textFault? : Number → Option NumberError
  | int n => if digitBound ≤ n.natAbs then some .tooManyDigits else none
  | a => a.fault?

namespace Checked

/-- The number, if it has a value. -/
def settled (a : Number) : Except NumberError Number :=
  Fault.check a.fault? a

/-- The text of a number in a drawing, if it can be written. -/
def text (a : Number) : Except NumberError String :=
  Fault.check a.textFault? a.text

/-- The nearest double of a number that is not too large for one. -/
def toDouble (a : Number) : Except NumberError Float :=
  match a.toDouble? with
  | some x => .ok x
  | none => .error .tooLarge

/-- A sum. -/
def add (a b : Number) : Except NumberError Number := settled (a + b)

/-- A difference. -/
def sub (a b : Number) : Except NumberError Number := settled (a - b)

/-- A product. -/
def mul (a b : Number) : Except NumberError Number := settled (a * b)

/-- A quotient, which is a double; that of two integers is rounded once. -/
def div (a b : Number) : Except NumberError Number :=
  if b == 0 then .error .divisionByZero else settled (a / b)

/-- The remainder that has the sign of the divisor. -/
def mod (a b : Number) : Except NumberError Number :=
  if b == 0 then .error .divisionByZero
  else
    match a, b with
    | int m, int n => .ok (int (Int.fmod m n))
    | a, b => do
      let x ← toDouble a
      let y ← toDouble b
      pure (real (Double.floorMod x y))

/-- The integer that a double stands for. -/
def toInt (x : Float) : Except NumberError Int :=
  match Double.toInt? x with
  | some n => .ok n
  | none => .error (if Double.isNan x then .notInteger else .tooLarge)

/-- The quotient, rounded down to an integer. -/
def floorDiv (a b : Number) : Except NumberError Int :=
  if b == 0 then .error .divisionByZero
  else
    match a, b with
    | int m, int n => .ok (Int.fdiv m n)
    | a, b => do
      let x ← toDouble a
      let y ← toDouble b
      toInt (Double.floorDiv x y)

/-- A number, as an integer where it has the value of one. -/
def clean (a : Number) : Except NumberError Number := do
  let x ← toDouble a
  match a with
  | int n => pure (int n)
  | _ => pure (Number.clean x)

/-- The text of an instant on a time axis: integral values in full, others with one place. -/
def timeText (a : Number) : Except NumberError String := do
  let x ← toDouble a
  match a.toInt? with
  | some k => pure (String.ofList (Decimal.integer k))
  | none => pure (String.ofList (Decimal.fixed 1 x))

end Checked
end Number
end UmlDraw
