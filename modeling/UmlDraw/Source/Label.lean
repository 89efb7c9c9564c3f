/-
# Names and labels

What becomes of the texts that a diagram text contains: the code of a name, the lines of a label,
the text of a note that was written over several lines.
-/
import UmlDraw.Text.Chars

namespace UmlDraw
namespace Label

/-- The characters a code is made of: word characters and points. -/
def isCode (c : Char) : Bool :=
  Letter.isWord c || c == '.'

/-- The code of a name: the name without the characters that cannot stand in a code. -/
def code (name : String) : String :=
  String.ofList (name.toList.filter isCode)

/-- The text without one pair of quotation marks around it. -/
def unquote (s : String) : String :=
  match s.toList with
  | '"' :: rest =>
    match rest.reverse with
    | '"' :: inner => String.ofList inner.reverse
    | _ => s
  | _ => s

/-- The mark for a line break inside a label: a backslash and the letter n. -/
def breakMark : List Char := ['\\', 'n']

/-- The label with its line breaks as they are written in a drawing. -/
def html (s : String) : String :=
  let marked := Chars.replaceAll breakMark "<br>".toList s.toList
  String.ofList (Chars.replaceAll ['\n'] "<br>".toList marked)

/-- The lines of a label. -/
def lines (s : String) : List String :=
  (Chars.split '\n' (Chars.replaceAll breakMark ['\n'] s.toList)).map String.ofList

/-- The length of the longest text of a list. -/
def longest (parts : List String) : Nat :=
  parts.foldl (fun n part => max n part.length) 0

/-- The smallest of some lengths, or none. -/
def smallest? : List Nat → Option Nat
  | [] => none
  | n :: ns => some (ns.foldl min n)

/-- The number of blanks at the start of a line. -/
def indent (line : List Char) : Nat :=
  (line.takeWhile Letter.isBlank).length

/-- The text of a note from its lines: without the indentation that all lines that are not blank
have in common, and without blank lines at the start and at the end. -/
def dedent (lines : List (List Char)) : String :=
  let cut := (smallest? ((lines.filter fun l => !Chars.isBlankText l).map indent)).getD 0
  let body := lines.map fun l => if Chars.isBlankText l then [] else l.drop cut
  let body := ((body.dropWhile List.isEmpty).reverse.dropWhile List.isEmpty).reverse
  String.ofList (Chars.join ['\n'] body)

end Label
end UmlDraw
