/-
# Reading numbers

Decimal numerals with digits of any script.  `Numeral.natural` reads a run of digits,
`Numeral.decimal?` the full notation for doubles: blanks around it, a sign, single underscores
between digits, a fraction, a power of ten, or a word for infinity or for no number.
-/
import UmlDraw.Number.Checked
import UmlDraw.Text.Chars

namespace UmlDraw
namespace Numeral

/-- The natural number written by the digits of a text; other characters count nothing. -/
def natural (s : List Char) : Nat :=
  s.foldl (fun n c =>
    match Letter.digitValue? c with
    | some d => 10 * n + d
    | none => n) 0

/-- The integer written by digits after an optional sign. -/
def integer (s : List Char) : Int :=
  match s with
  | '-' :: ds => -(natural ds : Int)
  | ds => natural ds

/-- The integer written by digits after an optional sign, unless there are too many of them. -/
def checkedInteger (s : List Char) : Except NumberError Int :=
  if Number.maxDigits < s.countP Letter.isDigit then .error .tooManyDigits else .ok (integer s)

/-- The double nearest to `m · 10^e`.  Powers far outside the range of doubles are not
computed. -/
def ofScientific (negative : Bool) (m : Nat) (e : Int) : Float :=
  let size : Int := (Decimal.digits m).length + e
  if m == 0 || size < -400 then Double.ofRatio negative 0 1
  else if 400 < size then (if negative then -Double.infinity else Double.infinity)
  else
    let (num, den) := Decimal.scaled m 1 e
    Double.ofRatio negative num den

/-- A digit of any script as an ASCII digit; any other character is its own. -/
def asciiDigit (c : Char) : Char :=
  match Letter.digitValue? c with
  | some d => Char.ofNat (48 + d)
  | none => c

/-- Removes the underscores of a numeral; `none` if one does not stand between two digits.  The
first argument is the character before. -/
def dropUnderscores? : Char → List Char → Option (List Char)
  | before, [] => if before == '_' then none else some []
  | before, '_' :: s => if before.isDigit then dropUnderscores? '_' s else none
  | before, c :: s =>
    if before == '_' && !c.isDigit then none else (dropUnderscores? c s).map (c :: ·)

/-- A run of ASCII digits and the rest of the text. -/
def digitRun (s : List Char) : List Char × List Char :=
  (s.takeWhile Char.isDigit, s.dropWhile Char.isDigit)

/-- An optional sign: whether it is a minus, and the rest of the text. -/
def sign : List Char → Bool × List Char
  | '-' :: s => (true, s)
  | '+' :: s => (false, s)
  | s => (false, s)

/-- An optional power of ten up to the end of the text. -/
def power? : List Char → Option Int
  | [] => some 0
  | c :: s =>
    if c == 'e' || c == 'E' then
      let (negative, s) := sign s
      match digitRun s with
      | ([], _) => none
      | (ds, []) => some (if negative then -(natural ds : Int) else natural ds)
      | _ => none
    else none

/-- An unsigned decimal numeral up to the end of the text. -/
def unsigned? (negative : Bool) (s : List Char) : Option Float :=
  let (whole, s) := digitRun s
  let (places, s) :=
    match s with
    | '.' :: s => digitRun s
    | s => ([], s)
  if whole.isEmpty && places.isEmpty then none
  else
    (power? s).map fun e => ofScientific negative (natural (whole ++ places)) (e - places.length)

/-- The double written by a text. -/
def decimal? (s : List Char) : Option Float := do
  let s ← dropUnderscores? ' ' ((Chars.trim s).map asciiDigit)
  let (negative, s) := sign s
  let word := String.ofList (s.map Letter.capital)
  if word = "INF" || word = "INFINITY" then
    some (if negative then -Double.infinity else Double.infinity)
  else if word = "NAN" then some Double.nan
  else unsigned? negative s

end Numeral
end UmlDraw
