/-
# Doubles as exact quotients

Coordinates and times that are not integers are doubles.  This file ties doubles to the numbers
they stand for: `Double.ratio?` gives the exact quotient of a finite double, and `Double.ofRatio`
the double nearest to a quotient, a tie going to the even neighbour.  Everything that must be
exact (comparison with integers, remainders, decimal text) goes through the quotient.
-/

namespace UmlDraw

/-- The integer nearest to `num / den`; a half goes to the even neighbour. -/
def roundDiv (num den : Nat) : Nat :=
  let q := num / den
  let twice := 2 * (num % den)
  if twice < den then q
  else if den < twice then q + 1
  else if q % 2 == 0 then q else q + 1

namespace Double

/-- A power of two. -/
def pow2 (k : Nat) : Nat :=
  Nat.pow 2 k

/-- Positive infinity. -/
def infinity : Float := Float.ofBits 0x7ff0000000000000

/-- The value that is no number. -/
def nan : Float := Float.ofBits 0x7ff8000000000000

/-- The sign bit: set for negative values and the negative zero. -/
def isNegative (x : Float) : Bool :=
  x.toBits.toNat ≥ pow2 63

/-- A finite double without its sign as mantissa and power of two; `none` for the infinities and
for no number. -/
def parts? (x : Float) : Option (Nat × Int) :=
  let bits := x.toBits.toNat
  let scale : Nat := (bits / pow2 52) % pow2 11
  let low := bits % pow2 52
  if scale == 2047 then none
  else if scale == 0 then some (low, -1074)
  else some (low + pow2 52, (scale : Int) - 1075)

/-- A finite double without its sign as an exact quotient. -/
def ratio? (x : Float) : Option (Nat × Nat) :=
  (parts? x).map fun (m, k) => if 0 ≤ k then (m * pow2 k.toNat, 1) else (m, pow2 (-k).toNat)

/-- No number. -/
def isNan (x : Float) : Bool :=
  !(x == x)

/-- An infinity. -/
def isInfinite (x : Float) : Bool :=
  x == infinity || x == -infinity

/-- The integer a double stands for, if it stands for one. -/
def toInt? (x : Float) : Option Int :=
  (ratio? x).bind fun (num, den) =>
    if num % den == 0 then
      let n : Int := num / den
      some (if isNegative x then -n else n)
    else none

/-- The double with the given sign, mantissa below 2^53 and power of two at least -1074; infinite
when it is too large. -/
def ofParts (negative : Bool) (m : Nat) (k : Int) : Float :=
  let sign := if negative then pow2 63 else 0
  let magnitude :=
    if 971 < k then 0x7ff0000000000000
    else if m < pow2 52 then m
    else (k + 1075).toNat * pow2 52 + (m - pow2 52)
  Float.ofBits (UInt64.ofNat (sign + magnitude))

/-- The double nearest to `num / den`, negated if asked; a tie goes to the even neighbour, and a
quotient that is too large becomes infinite. -/
def ofRatio (negative : Bool) (num den : Nat) : Float :=
  if num == 0 then ofParts negative 0 (-1074)
  else
    let guess : Int := (num.log2 : Int) - den.log2
    let below :=
      if 0 ≤ guess then num < den * pow2 guess.toNat else num * pow2 (-guess).toNat < den
    let top := if below then guess - 1 else guess
    let k := max (top - 52) (-1074)
    let m :=
      if 0 ≤ k then roundDiv num (den * pow2 k.toNat)
      else roundDiv (num * pow2 (-k).toNat) den
    if m == pow2 53 then ofParts negative (pow2 52) (k + 1) else ofParts negative m k

/-- The double nearest to an integer. -/
def ofInt (n : Int) : Float :=
  ofRatio (n < 0) n.natAbs 1

/-- The remainder of a division whose quotient is cut toward zero; it has the sign of the
dividend. -/
def remainder (x y : Float) : Float :=
  match parts? x, parts? y with
  | some (mx, kx), some (my, ky) =>
    if my == 0 then nan
    else
      let k := min kx ky
      let r := (mx * pow2 (kx - k).toNat) % (my * pow2 (ky - k).toNat)
      if 0 ≤ k then ofRatio (isNegative x) (r * pow2 k.toNat) 1
      else ofRatio (isNegative x) r (pow2 (-k).toNat)
  | some _, none => if isNan y then nan else x
  | none, _ => nan

/-- The greatest integral double that is not above a finite double. -/
def floor (x : Float) : Float :=
  match ratio? x with
  | none => x
  | some (num, den) =>
    if num % den == 0 then x
    else if isNegative x then ofRatio true (num / den + 1) 1
    else ofRatio false (num / den) 1

/-- The remainder that has the sign of the divisor. -/
def floorMod (x y : Float) : Float :=
  let r := remainder x y
  if r == 0 then (if isNegative y then -0.0 else 0.0)
  else if decide (y < 0) != decide (r < 0) then r + y else r

/-- The quotient rounded down, consistent with `floorMod`. -/
def floorDiv (x y : Float) : Float :=
  let r := remainder x y
  let q := (x - r) / y
  let q := if !(r == 0) && decide (y < 0) != decide (r < 0) then q - 1 else q
  if q == 0 then (if isNegative (x / y) then -0.0 else 0.0)
  else
    let f := floor q
    if f + 0.5 < q then f + 1 else f

end Double
end UmlDraw
