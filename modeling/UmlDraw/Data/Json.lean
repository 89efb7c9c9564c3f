/-
# Structured data

Values made of nulls, truth values, numbers, texts, lists and objects, and the reader of their
usual text form.  Integers are exact and have at most 4300 digits; a number with a fraction or a
power of ten is a double, and so are the words `NaN`, `Infinity` and `-Infinity`.  Of equal keys of
an object the first gives the place and the last the value.  Blanks are space, tab, carriage return
and line feed only.
-/
import UmlDraw.Data.Keyed
import UmlDraw.Number.Reading

namespace UmlDraw

/-- A value of structured data. -/
inductive Json where
  | null
  | bool (b : Bool)
  | number (n : Number)
  | string (s : String)
  | array (items : List Json)
  | object (entries : List (String × Json))
deriving Inhabited

namespace Json

/-- A blank between tokens. -/
def isSpace (c : Char) : Bool :=
  c == ' ' || c == '\t' || c == '\r' || c == '\n'

/-- The text behind the blanks at its front. -/
def skip (s : List Char) : List Char :=
  s.dropWhile isSpace

/-- The value of four hexadecimal digits. -/
def hexDigit? (c : Char) : Option Nat :=
  if c.isDigit then some (c.toNat - 48)
  else if 'a' ≤ c && c ≤ 'f' then some (c.toNat - 87)
  else if 'A' ≤ c && c ≤ 'F' then some (c.toNat - 55)
  else none

/-- The number written by the four hexadecimal digits at the front of a text. -/
def hex4? : List Char → Option (Nat × List Char)
  | a :: b :: c :: d :: s => do
    let a ← hexDigit? a
    let b ← hexDigit? b
    let c ← hexDigit? c
    let d ← hexDigit? d
    some (((a * 16 + b) * 16 + c) * 16 + d, s)
  | _ => none

/-- The character of a code unit, which may need a second one, and the rest of the text. -/
def unit (code : Nat) (s : List Char) : Char × List Char :=
  let single := (if 0xd800 ≤ code && code < 0xe000 then '\ufffd' else Char.ofNat code, s)
  if 0xd800 ≤ code && code < 0xdc00 then
    match s with
    | '\\' :: 'u' :: rest =>
      match hex4? rest with
      | some (low, rest) =>
        if 0xdc00 ≤ low && low < 0xe000 then
          (Char.ofNat (0x10000 + (code - 0xd800) * 0x400 + (low - 0xdc00)), rest)
        else single
      | none => single
    | _ => single
  else single

/-- The character that a backslash and the given character stand for. -/
def escaped? : Char → Option Char
  | '"' => some '"'
  | '\\' => some '\\'
  | '/' => some '/'
  | 'b' => some '\x08'
  | 'f' => some '\x0c'
  | 'n' => some '\n'
  | 'r' => some '\r'
  | 't' => some '\t'
  | _ => none

/-- Reads a text up to its closing quotation mark.  The first argument bounds the number of
characters, the second holds those read so far in reverse order. -/
def readString : Nat → List Char → List Char → Option (String × List Char)
  | 0, _, _ => none
  | _ + 1, _, [] => none
  | _ + 1, seen, '"' :: s => some (String.ofList seen.reverse, s)
  | n + 1, seen, '\\' :: 'u' :: s => do
    let (code, s) ← hex4? s
    let (c, s) := unit code s
    readString n (c :: seen) s
  | n + 1, seen, '\\' :: e :: s => do
    let c ← escaped? e
    readString n (c :: seen) s
  | n + 1, seen, c :: s =>
    if c == '\\' || c.toNat < 0x20 then none else readString n (c :: seen) s

/-- An optional fraction: its digits and the rest of the text. -/
def readFraction (s : List Char) : Option (List Char) × List Char :=
  match s with
  | '.' :: rest =>
    match Numeral.digitRun rest with
    | ([], _) => (none, s)
    | (ds, rest) => (some ds, rest)
  | _ => (none, s)

/-- An optional power of ten and the rest of the text. -/
def readPower (s : List Char) : Option Int × List Char :=
  match s with
  | e :: rest =>
    if e == 'e' || e == 'E' then
      let (negative, rest) := Numeral.sign rest
      match Numeral.digitRun rest with
      | ([], _) => (none, s)
      | (ds, rest) =>
        (some (if negative then -(Numeral.natural ds : Int) else Numeral.natural ds), rest)
    else (none, s)
  | [] => (none, s)

/-- Reads an unsigned number. -/
def readUnsigned (negative : Bool) (s : List Char) : Option (Number × List Char) :=
  let (whole, rest) :=
    match s with
    | '0' :: rest => (['0'], rest)
    | s => Numeral.digitRun s
  if whole.isEmpty then none
  else
    let (fraction, rest) := readFraction rest
    let (power, rest) := readPower rest
    if fraction.isNone && power.isNone then
      let n : Int := Numeral.natural whole
      if whole.length ≤ Number.maxDigits then some (.int (if negative then -n else n), rest)
      else none
    else
      let places := fraction.getD []
      some (.real (Numeral.ofScientific negative (Numeral.natural (whole ++ places))
        (power.getD 0 - places.length)), rest)

/-- Reads a number or one of the words for special numbers. -/
def readNumber (s : List Char) : Option (Number × List Char) :=
  match Chars.after? "NaN".toList s with
  | some rest => some (.real Double.nan, rest)
  | none =>
    match Chars.after? "Infinity".toList s with
    | some rest => some (.real Double.infinity, rest)
    | none =>
      match Chars.after? "-Infinity".toList s with
      | some rest => some (.real (-Double.infinity), rest)
      | none =>
        match s with
        | '-' :: rest => readUnsigned true rest
        | s => readUnsigned false s

mutual

/-- Reads a value.  The first argument bounds the number of steps. -/
def readValue : Nat → List Char → Option (Json × List Char)
  | 0, _ => none
  | n + 1, s =>
    match s with
    | '"' :: rest => (readString s.length [] rest).map fun (t, rest) => (string t, rest)
    | '[' :: rest =>
      match skip rest with
      | ']' :: rest => some (array [], rest)
      | rest => (readItems n rest).map fun (items, rest) => (array items, rest)
    | '\x7b' :: rest =>
      match skip rest with
      | '\x7d' :: rest => some (object [], rest)
      | rest =>
        (readEntries n rest).map fun (entries, rest) =>
          (object (Keyed.ofList entries).entries, rest)
    | s =>
      match Chars.after? "null".toList s with
      | some rest => some (null, rest)
      | none =>
        match Chars.after? "true".toList s with
        | some rest => some (bool true, rest)
        | none =>
          match Chars.after? "false".toList s with
          | some rest => some (bool false, rest)
          | none => (readNumber s).map fun (x, rest) => (number x, rest)

/-- Reads the items of a list that is not empty, up to its closing bracket. -/
def readItems : Nat → List Char → Option (List Json × List Char)
  | 0, _ => none
  | n + 1, s =>
    match readValue n s with
    | none => none
    | some (v, rest) =>
      match skip rest with
      | ']' :: rest => some ([v], rest)
      | ',' :: rest => (readItems n (skip rest)).map fun (vs, rest) => (v :: vs, rest)
      | _ => none

/-- Reads the entries of an object that is not empty, up to its closing brace. -/
def readEntries : Nat → List Char → Option (List (String × Json) × List Char)
  | 0, _ => none
  | n + 1, s =>
    match s with
    | '"' :: rest =>
      match readString s.length [] rest with
      | none => none
      | some (key, rest) =>
        match skip rest with
        | ':' :: rest =>
          match readValue n (skip rest) with
          | none => none
          | some (v, rest) =>
            match skip rest with
            | '\x7d' :: rest => some ([(key, v)], rest)
            | ',' :: rest =>
              (readEntries n (skip rest)).map fun (es, rest) => ((key, v) :: es, rest)
            | _ => none
        | _ => none
    | _ => none

end

/-- The value that a text stands for. -/
def read? (s : List Char) : Option Json :=
  match readValue (s.length + 1) (skip s) with
  | some (v, rest) => if (skip rest).isEmpty then some v else none
  | none => none

/-- The value of a key of an object. -/
def field? (j : Json) (key : String) : Option Json :=
  match j with
  | object entries => entries.lookup key
  | _ => none

end Json
end UmlDraw
