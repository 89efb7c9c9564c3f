/-
# Decimal text of numbers

Three ways to write a double in decimal digits, each selected by exact integer arithmetic: with a
fixed number of places, with a fixed number of significant digits, and with the fewest digits that
read back to the same double.  `Number.text` is the form used in drawings: integers in full, other
values rounded to two places and then to six significant digits.
-/
import UmlDraw.Number.Basic

namespace UmlDraw
namespace Decimal

/-- The decimal digits of a natural number. -/
def digits (n : Nat) : List Char :=
  Nat.toDigits 10 n

/-- A sign in front of negative values. -/
def signed (negative : Bool) (text : List Char) : List Char :=
  if negative then '-' :: text else text

/-- The text of a value that is not finite. -/
def special (x : Float) : List Char :=
  if Double.isNan x then "nan".toList
  else signed (Double.isNegative x) "inf".toList

/-- Digits with a point before the last `places` of them, and at least one digit before it. -/
def withPoint (places : Nat) (ds : List Char) : List Char :=
  let ds := List.replicate (places + 1 - ds.length) '0' ++ ds
  let whole := ds.length - places
  if places == 0 then ds else ds.take whole ++ '.' :: ds.drop whole

/-- A double with a fixed number of places after the point; a half goes to the even neighbour. -/
def fixed (places : Nat) (x : Float) : List Char :=
  match Double.ratio? x with
  | none => special x
  | some (num, den) =>
    signed (Double.isNegative x)
      (withPoint places (digits (roundDiv (num * Nat.pow 10 places) den)))

/-- The double nearest to a double rounded to two places. -/
def hundredths (x : Float) : Float :=
  match Double.ratio? x with
  | none => x
  | some (num, den) => Double.ofRatio (Double.isNegative x) (roundDiv (num * 100) den) 100

/-- The quotient scaled by a power of ten. -/
def scaled (num den : Nat) (e : Int) : Nat × Nat :=
  if 0 ≤ e then (num * Nat.pow 10 e.toNat, den) else (num, den * Nat.pow 10 (-e).toNat)

/-- The power of ten of the first digit of a positive quotient. -/
def leading (num den : Nat) : Int :=
  let guess : Int := ((num / den).log2 : Int) - ((den / num).log2 : Int)
  let guess := (guess * 30103).fdiv 100000 - 1
  let above (e : Int) : Bool :=
    let (a, b) := scaled num den (-e)
    b ≤ a
  if above (guess + 2) then guess + 2 else if above (guess + 1) then guess + 1 else guess

/-- The digits of a mark for a power of ten: a sign and at least two digits. -/
def exponentMark (e : Int) : List Char :=
  let ds := digits e.natAbs
  'e' :: (if e < 0 then '-' else '+') :: (if ds.length < 2 then '0' :: ds else ds)

/-- The text without the given characters at its end. -/
def dropEnd (p : Char → Bool) (ds : List Char) : List Char :=
  (ds.reverse.dropWhile p).reverse

/-- A double with at most six significant digits, without zeros at the end; with a power of ten
when the first digit stands for less than 10^-4 or for at least 10^6. -/
def sixDigits (x : Float) : List Char :=
  match Double.ratio? x with
  | none => special x
  | some (num, den) =>
    if num == 0 then signed (Double.isNegative x) ['0']
    else
      let e := leading num den
      let (a, b) := scaled num den (5 - e)
      let m := roundDiv a b
      let (m, e) := if m == 1000000 then (100000, e + 1) else (m, e)
      let body :=
        if e < -4 || 6 ≤ e then
          dropEnd (· == '.') (dropEnd (· == '0') (withPoint 5 (digits m))) ++ exponentMark e
        else if e == 5 then digits m
        else dropEnd (· == '.') (dropEnd (· == '0') (withPoint (5 - e).toNat (digits m)))
      signed (Double.isNegative x) body

/-- Looks for the decimal number with the fewest digits that is read back as the given double: the
two neighbours with one digit, with two and so on; of two that are read back the nearer is taken,
the even one in case of a tie.  The result is an integer and the power of ten to multiply it with;
the last argument bounds the number of further digits. -/
def shortestFrom (x : Float) (num den : Nat) (e : Int) : Nat → Nat → Nat × Int
  | count, 0 =>
    let power := e - count + 1
    let (a, b) := scaled num den (-power)
    (roundDiv a b, power)
  | count, more + 1 =>
    let power := e - count + 1
    let (a, b) := scaled num den (-power)
    let low := a / b
    let reads (m : Nat) : Bool :=
      let (p, q) := scaled m 1 power
      Double.ofRatio false p q == x
    match reads low, reads (low + 1) with
    | true, true => (roundDiv a b, power)
    | true, false => (low, power)
    | false, true => (low + 1, power)
    | false, false => shortestFrom x num den e (count + 1) more

/-- The fewest digits that read back to the same double, as an integer without zeros at its end
and the power of ten of its first digit. -/
def shortest (x : Float) (num den : Nat) : List Char × Int :=
  let (m, power) := shortestFrom x.abs num den (leading num den) 1 16
  let ds := digits m
  (dropEnd (· == '0') ds, power + ds.length - 1)

/-- A double with the fewest digits that read back to it; positional for first digits from 10^-4
to 10^15, and then with at least one place after the point. -/
def plain (x : Float) : List Char :=
  match Double.ratio? x with
  | none => special x
  | some (num, den) =>
    if num == 0 then signed (Double.isNegative x) "0.0".toList
    else
      let (ds, e) := shortest x num den
      let body :=
        if e < -4 || 16 ≤ e then
          match ds with
          | [] => []
          | [d] => d :: exponentMark e
          | d :: rest => d :: '.' :: rest ++ exponentMark e
        else if e < 0 then '0' :: '.' :: List.replicate ((-e).toNat - 1) '0' ++ ds
        else
          let whole := e.toNat + 1
          let padded := ds ++ List.replicate (whole - ds.length) '0'
          let places := ds.drop whole
          padded.take whole ++ '.' :: (if places.isEmpty then ['0'] else places)
      signed (Double.isNegative x) body

/-- An integer in decimal. -/
def integer (n : Int) : List Char :=
  signed (n < 0) (digits n.natAbs)

end Decimal

namespace Number

/-- The text of a number in a drawing: integral values in full, others rounded to two places and
then to six significant digits. -/
def chars (n : Number) : List Char :=
  match n.toInt? with
  | some k => Decimal.integer k
  | none => Decimal.sixDigits (Decimal.hundredths n.toDouble)

/-- The text of a number in a drawing. -/
def text (n : Number) : String :=
  String.ofList n.chars

end Number
end UmlDraw
