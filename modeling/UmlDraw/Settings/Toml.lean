/-
# Settings files

The plain part of the TOML notation: tables with names, and entries whose values are texts, integers
or truth values.  Comments start with a number sign.  A text that is not of this form, or that gives
a key or a table twice, is broken.
-/
import UmlDraw.Data.Json
import UmlDraw.Text.Quoted
import UmlDraw.Text.Scan

namespace UmlDraw
namespace Toml

/-- A document: the entries before the first table, and the tables. -/
structure Document where
  values : Keyed Json := Keyed.empty
  tables : Keyed (Keyed Json) := Keyed.empty

/-- A line of a document. -/
inductive Line where
  | blank
  | table (name : String)
  | entry (key : String) (value : Json)

namespace Line

/-- A space or a tab. -/
def isSpace (c : Char) : Bool :=
  c == ' ' || c == '\t'

/-- Spaces and tabs. -/
def spaces : Scan Unit :=
  Scan.skip isSpace

/-- A character that may stand in a comment or a text. -/
def isText (c : Char) : Bool :=
  c == '\t' || !(c.toNat < 32 || c.toNat == 127)

/-- Spaces and a comment up to the end of the line. -/
def lineEnd : Scan Unit := do
  spaces
  let _ ← Scan.optional do
    let _ ← Scan.char '#'
    Scan.many isText
  Scan.atEnd

/-- A character with the given number of hexadecimal digits. -/
def byNumber (length : Nat) : Scan Char := do
  let digits ← Scan.captured ((List.replicate length ()).forM fun _ => do
    let _ ← Scan.satisfy fun c => (Json.hexDigit? c).isSome)
  let n := digits.toList.foldl (fun n c => n * 16 + (Json.hexDigit? c).getD 0) 0
  Scan.require (n < 0xd800 || (0xe000 ≤ n && n < 0x110000))
  pure (Char.ofNat n)

/-- The characters that are written with a backslash and a letter. -/
def escapes : List (Char × Char) := [
  ('b', '\x08'), ('t', '\t'), ('n', '\n'), ('f', '\x0c'), ('r', '\r'), ('"', '"'), ('\\', '\\')]

/-- A character of a text. -/
def textChar : Scan Char :=
  Scan.either (Scan.satisfy fun c => isText c && c != '"' && c != '\\')
    (do
      let _ ← Scan.char '\\'
      let c ← Scan.satisfy isText
      match escapes.lookup c with
      | some d => pure d
      | none =>
        if c = 'u' then byNumber 4 else if c = 'U' then byNumber 8 else Scan.fail)

/-- A text between double quotation marks. -/
def basicText : Scan String := do
  let _ ← Scan.char '"'
  let cs ← Scan.repeated textChar
  let _ ← Scan.char '"'
  pure (String.ofList cs)

/-- A text between single quotation marks, which is written as it is. -/
def literalText : Scan String := do
  let _ ← Scan.char '\''
  let s ← Scan.many fun c => isText c && c != '\''
  let _ ← Scan.char '\''
  pure s

/-- A text. -/
def text : Scan String :=
  Scan.either basicText literalText

/-- A key. -/
def key : Scan String :=
  Scan.either (Scan.many1 fun c => c.isAlphanum || c == '_' || c == '-') text

/-- The digits of an integer, with single underscores between them. -/
def digits : Scan String := do
  let first ← Scan.captured (Scan.satisfy Char.isDigit)
  let more ← Scan.repeated do
    let _ ← Scan.optional (Scan.char '_')
    Scan.satisfy Char.isDigit
  Scan.require (first != "0" || more.isEmpty)
  pure (first ++ String.ofList more)

/-- An integer. -/
def integer : Scan Int := do
  let sign ← Scan.optional (Scan.satisfy fun c => c == '-' || c == '+')
  let ds ← digits
  let n : Int := Numeral.natural ds.toList
  pure (if sign = some '-' then -n else n)

/-- A value. -/
def value : Scan Json :=
  Scan.anyOf [
    Json.string <$> text,
    (do
      let n ← integer
      pure (.number (.int n))),
    (do
      Scan.text "true"
      pure (.bool true)),
    (do
      Scan.text "false"
      pure (.bool false))]

/-- A line. -/
def line : Scan Line := do
  spaces
  let l ← Scan.anyOf [
    (do
      let _ ← Scan.char '['
      spaces
      let name ← key
      spaces
      let _ ← Scan.char ']'
      pure (Line.table name)),
    (do
      let k ← key
      spaces
      let _ ← Scan.char '='
      spaces
      let v ← value
      pure (Line.entry k v)),
    pure Line.blank]
  lineEnd
  pure l

end Line

namespace Document

/-- The key of an entry or a table before any table. -/
def hasName (d : Document) (name : String) : Bool :=
  d.values.contains name || d.tables.contains name

/-- Reads a line behind the header of the given table, if there was one; the second result is the
table of the next line. -/
def step (d : Document) (current : Option String) : Line → Option (Document × Option String)
  | .blank => some (d, current)
  | .table name =>
    if d.hasName name then none
    else some ({ d with tables := d.tables.insert name Keyed.empty }, some name)
  | .entry key value =>
    match current with
    | none =>
      if d.hasName key then none
      else some ({ d with values := d.values.insert key value }, none)
    | some name =>
      if ((d.tables.get? name).map fun t => t.contains key) = some true then none
      else some ({ d with tables := d.tables.modify name fun t => t.insert key value }, current)

/-- Reads lines; `none` if the text is broken. -/
def readLines : Document → Option String → List (List Char) → Option Document
  | d, _, [] => some d
  | d, current, s :: rest => do
    let l ← Line.line.whole s
    let (d, current) ← d.step current l
    readLines d current rest

/-- Line breaks as single line feeds. -/
def unifyBreaks : List Char → List Char
  | [] => []
  | '\r' :: '\n' :: s => '\n' :: unifyBreaks s
  | c :: s => c :: unifyBreaks s

/-- The document of a text; `none` if the text is broken. -/
def read? (s : String) : Option Document :=
  readLines {} none (Chars.split '\n' (unifyBreaks s.toList))

/-- The document as structured data. -/
def toJson (d : Document) : Json :=
  .object (d.values.entries ++ d.tables.entries.map fun (name, t) => (name, .object t.entries))

end Document

/-- The written form of a character of a text. -/
def escapeChar (c : Char) : List Char :=
  if c = '\t' then [c]
  else
    match Line.escapes.find? fun (_, d) => d == c with
    | some (letter, _) => ['\\', letter]
    | none => if Line.isText c then [c] else '\\' :: 'u' :: Quoted.hex 4 c.toNat

/-- A text between double quotation marks. -/
def quote (s : String) : String :=
  "\"" ++ String.ofList (s.toList.flatMap escapeChar) ++ "\""

/-- A truth value. -/
def truth (b : Bool) : String :=
  if b then "true" else "false"

end Toml
end UmlDraw
