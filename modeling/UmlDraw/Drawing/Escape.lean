/-
# Escaped attribute values

Texts are written into double-quoted attributes.  Seven characters have a written form that starts
with `&`; all others stand for themselves.  `unescape` reads the written forms back and accepts
the two line breaks also in decimal.  The main statement is `unescape_escape`: nothing is
lost.
-/
import UmlDraw.Text.Chars

namespace UmlDraw
namespace Escape

/-- The written form of one character. -/
def char (c : Char) : List Char :=
  match c with
  | '&' => "&amp;".toList
  | '<' => "&lt;".toList
  | '>' => "&gt;".toList
  | '"' => "&quot;".toList
  | '\'' => "&apos;".toList
  | '\n' => "&#xa;".toList
  | '\r' => "&#xd;".toList
  | c => [c]

/-- The written form of a text. -/
def escapeChars (s : List Char) : List Char :=
  s.flatMap char

/-- The names that are read between `&` and `;`. -/
def entities : List (List Char × Char) := [
  ("amp;".toList, '&'), ("lt;".toList, '<'), ("gt;".toList, '>'), ("quot;".toList, '"'),
  ("apos;".toList, '\''), ("#xa;".toList, '\n'), ("#xd;".toList, '\r'), ("#10;".toList, '\n'),
  ("#13;".toList, '\r')]

/-- The character written at the front of a text that follows `&`, with the number of characters
of its name. -/
def entity? (s : List Char) : Option (Char × Nat) :=
  (entities.find? fun (name, _) => (Chars.after? name s).isSome).map
    fun (name, c) => (c, name.length)

/-- Reads a text back; the first argument counts the characters of a written form that are still
to be skipped.  An `&` that starts no written form stands for itself. -/
def unescapeFrom : Nat → List Char → List Char
  | _, [] => []
  | skip + 1, _ :: s => unescapeFrom skip s
  | 0, c :: s =>
    if c = '&' then
      match entity? s with
      | some (d, n) => d :: unescapeFrom n s
      | none => c :: unescapeFrom 0 s
    else c :: unescapeFrom 0 s

/-- The text of a written form. -/
def unescapeChars (s : List Char) : List Char :=
  unescapeFrom 0 s

theorem unescapeFrom_char_append (c : Char) (s : List Char) :
    unescapeFrom 0 (char c ++ s) = c :: unescapeFrom 0 s := by
  unfold char
  split
  case h_8 h _ _ _ _ _ _ =>
    rw [List.singleton_append, unescapeFrom, if_neg h]
  all_goals simp [unescapeFrom, entity?, entities, Chars.after?]

/-- Reading back what was written gives the text. -/
theorem unescapeChars_escapeChars (s : List Char) : unescapeChars (escapeChars s) = s := by
  unfold unescapeChars escapeChars
  induction s with
  | nil => rfl
  | cons c s ih => rw [List.flatMap_cons, unescapeFrom_char_append, ih]

end Escape

/-- The written form of a text inside an attribute. -/
def escape (s : String) : String :=
  String.ofList (Escape.escapeChars s.toList)

/-- The text of the written form inside an attribute. -/
def unescape (s : String) : String :=
  String.ofList (Escape.unescapeChars s.toList)

theorem unescape_escape (s : String) : unescape (escape s) = s := by
  simp [escape, unescape, Escape.unescapeChars_escapeChars]

end UmlDraw
