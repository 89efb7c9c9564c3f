/-
# Operations on texts

A text under study is a list of characters.  This file holds the cutting operations used
everywhere: removing blanks at the ends, splitting at a character, finding and replacing a
pattern.  `String` versions stand at the end; they only convert.
-/
import UmlDraw.Text.Letter

namespace UmlDraw
namespace Chars

/-- The text without the blanks at its start. -/
def trimLeft (s : List Char) : List Char :=
  s.dropWhile Letter.isBlank

/-- The text without the characters of a class at its end. -/
def dropEndWhile (p : Char → Bool) (s : List Char) : List Char :=
  (s.reverse.dropWhile p).reverse

/-- The text without the blanks at its end. -/
def trimRight (s : List Char) : List Char :=
  dropEndWhile Letter.isBlank s

/-- The text without the blanks at both ends. -/
def trim (s : List Char) : List Char :=
  trimRight (trimLeft s)

/-- The text without the characters of a class at both ends. -/
def dropAround (p : Char → Bool) (s : List Char) : List Char :=
  dropEndWhile p (s.dropWhile p)

/-- A text of blanks only, the empty one included. -/
def isBlankText (s : List Char) : Bool :=
  s.all Letter.isBlank

/-- The parts between the characters of a class; there is one part more than there are such
characters. -/
def splitWhen (p : Char → Bool) : List Char → List (List Char)
  | [] => [[]]
  | c :: s =>
    if p c then [] :: splitWhen p s
    else
      match splitWhen p s with
      | [] => [[c]]
      | part :: parts => (c :: part) :: parts

/-- The parts between the occurrences of a character. -/
def split (sep : Char) (s : List Char) : List (List Char) :=
  splitWhen (· == sep) s

/-- The parts, joined with a separator between neighbours. -/
def join (sep : List Char) (parts : List (List Char)) : List Char :=
  sep.intercalate parts

/-- The maximal parts without blanks. -/
def words (s : List Char) : List (List Char) :=
  (splitWhen Letter.isBlank s).filter (fun part => !part.isEmpty)

/-- The rest of a text after a given start. -/
def after? (start s : List Char) : Option (List Char) :=
  match start, s with
  | [], s => some s
  | _ :: _, [] => none
  | a :: start, c :: s => if a = c then after? start s else none

/-- The text before and the text after the first occurrence of a pattern. -/
def cut? (pattern : List Char) : List Char → Option (List Char × List Char)
  | [] => if pattern = [] then some ([], []) else none
  | c :: s =>
    match after? pattern (c :: s) with
    | some rest => some ([], rest)
    | none => (cut? pattern s).map fun (before, rest) => (c :: before, rest)

/-- The pattern occurs in the text. -/
def contains (pattern s : List Char) : Bool :=
  (cut? pattern s).isSome

/-- Replaces every occurrence of a non-empty pattern, from the left and without overlap.  The
first argument counts the characters of an occurrence that are still to be skipped. -/
def replaceFrom (pattern new : List Char) : Nat → List Char → List Char
  | _, [] => []
  | skip + 1, _ :: s => replaceFrom pattern new skip s
  | 0, c :: s =>
    if (after? pattern (c :: s)).isSome then
      new ++ replaceFrom pattern new (pattern.length - 1) s
    else c :: replaceFrom pattern new 0 s

/-- Replaces every occurrence of a pattern, from the left and without overlap.  The empty pattern
occurs before every character and at the end. -/
def replaceAll (pattern new s : List Char) : List Char :=
  if pattern.isEmpty then s.foldr (fun c rest => new ++ c :: rest) new
  else replaceFrom pattern new 0 s

/-- The text starts with the given small ASCII word in any case. -/
def startsWithWord (word s : List Char) : Bool :=
  match word, s with
  | [], _ => true
  | _ :: _, [] => false
  | k :: word, c :: s => k == Letter.small c && startsWithWord word s

/-- A text in small letters, as far as its letters are ASCII. -/
def small (s : List Char) : List Char :=
  s.map Letter.small

theorem splitWhen_ne_nil (p : Char → Bool) (s : List Char) : splitWhen p s ≠ [] := by
  cases s with
  | nil => simp [splitWhen]
  | cons c s => rw [splitWhen]; split <;> (try split) <;> simp

end Chars

namespace Text

/-- The text without the blanks at both ends. -/
def trim (s : String) : String :=
  String.ofList (Chars.trim s.toList)

/-- The parts between the occurrences of a character. -/
def split (sep : Char) (s : String) : List String :=
  (Chars.split sep s.toList).map String.ofList

/-- Replaces every occurrence of a pattern. -/
def replaceAll (pattern new s : String) : String :=
  String.ofList (Chars.replaceAll pattern.toList new.toList s.toList)

/-- The texts, with a separator between neighbours. -/
def join (sep : String) (parts : List String) : String :=
  sep.intercalate parts

/-- The pattern occurs in the text. -/
def contains (pattern s : String) : Bool :=
  Chars.contains pattern.toList s.toList

/-- A text in small letters, as far as its letters are ASCII. -/
def small (s : String) : String :=
  String.ofList (Chars.small s.toList)

end Text
end UmlDraw
