/-
# Styles

A style is a table of keys and values, written `key=value;key=value;`.  A key may stand alone, and
every written style ends with a semicolon.
-/
import UmlDraw.Data.Keyed
import UmlDraw.Number.Decimal
import UmlDraw.Text.Chars

namespace UmlDraw

/-- What stands behind a key of a style. -/
inductive StyleValue where
  /-- Nothing; the key stands alone. -/
  | bare
  /-- A text. -/
  | text (s : String)
  /-- A number. -/
  | number (n : Number)
  /-- Yes or no, written 1 or 0. -/
  | flag (b : Bool)

namespace StyleValue

instance (n : Nat) : OfNat StyleValue n := ⟨number (.int n)⟩

instance : Coe String StyleValue := ⟨text⟩

instance : Coe Number StyleValue := ⟨number⟩

/-- The written form of an entry. -/
def entry (key : String) : StyleValue → String
  | bare => key
  | text s => key ++ "=" ++ s
  | number n => key ++ "=" ++ n.text
  | flag b => key ++ (if b then "=1" else "=0")

end StyleValue

/-- A style: keys in order of first entry, with their values. -/
abbrev Style := Keyed StyleValue

namespace Style

/-- The style with the given entries; of equal keys the first gives the place and the last the
value. -/
def of (entries : List (String × StyleValue)) : Style :=
  Keyed.ofList entries

/-- Enters further keys and values. -/
def update (s : Style) (entries : List (String × StyleValue)) : Style :=
  entries.foldl (fun t (key, value) => t.insert key value) s

/-- The written form of a style. -/
def render (s : Style) : String :=
  match s.entries with
  | [] => ""
  | entries => Text.join ";" (entries.map fun (key, value) => value.entry key) ++ ";"

/-- An entry read from its written form: the key ends at the first equality sign. -/
def readEntry (part : List Char) : String × StyleValue :=
  match Chars.cut? ['='] part with
  | some (key, value) => (String.ofList key, .text (String.ofList value))
  | none => (String.ofList part, .bare)

/-- The style with the given written form; empty parts count nothing. -/
def read (s : String) : Style :=
  of (((Chars.split ';' s.toList).filter fun part => !part.isEmpty).map readEntry)

/-- The written style with some keys changed or added. -/
def merge (base : String) (entries : List (String × StyleValue)) : String :=
  ((read base).update entries).render

end Style
end UmlDraw
