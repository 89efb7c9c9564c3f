/-
# Keywords that declare something

What a declaration declares follows from its keyword, which may be written in any case and is looked
up by its small letters.  A spelling with a long `s`, a dotless `i` or a dotted capital `i` is
recognised as the keyword, but keeps these letters and is not found: it is an `UnknownKeyword`, and
the text cannot be read.
-/
import UmlDraw.Source.Token

namespace UmlDraw

/-- A keyword that is recognised but stands for nothing. -/
structure UnknownKeyword where
  /-- The keyword in small letters. -/
  spelling : String
deriving DecidableEq, Repr

namespace Keyword

variable {α : Type}

/-- What the words of a keyword in small letters stand for. -/
def find (table : List (List String × α)) (words : List String) : Except UnknownKeyword α :=
  match table.lookup words with
  | some a => .ok a
  | none => .error ⟨Text.join " " words⟩

/-- The words of a keyword as it is written, in small letters. -/
def wordsOf (written : String) : List String :=
  (Chars.words (written.toList.flatMap Scan.lowered)).map String.ofList

/-- One of the keywords of a table, tried in order, and what it stands for. -/
def scan (table : List (List String × α)) : Scan (Except UnknownKeyword α) := do
  let written ← Scan.anyOf (table.map fun (words, _) => Scan.captured (Token.phrase words))
  pure (find table (wordsOf written))

end Keyword
end UmlDraw
