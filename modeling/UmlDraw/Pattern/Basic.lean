/-
# Patterns

A pattern describes a set of texts: single characters of a class, one after the other, alternatives
and repetitions.  It may also look at what stands around a place without reading it, and repeat what
a group has read.
-/
import UmlDraw.Text.Letter
import UmlDraw.Text.Smalls

namespace UmlDraw
namespace Pattern

/-- How the signs of a pattern are understood. -/
structure Mode where
  /-- Letters are compared without regard to case. -/
  ignoresCase : Bool := false
  /-- A line is like a text of its own for the signs of its start and its end. -/
  byLine : Bool := false
  /-- The point stands for line feeds too. -/
  dotAll : Bool := false
  /-- The classes of characters and the two cases are those of ASCII. -/
  isAscii : Bool := false
  /-- Blanks and comments between the signs do not count. -/
  isSpaced : Bool := false
deriving DecidableEq, Repr

namespace Mode

/-- The same character, or the same letter if case does not count. -/
def same (m : Mode) (a b : Char) : Bool :=
  if !m.ignoresCase then a == b
  else if m.isAscii then a.toLower == b.toLower
  else Smalls.sameLetter a b

/-- The characters that pass for a character. -/
def spellings (m : Mode) (c : Char) : List Char :=
  if !m.ignoresCase then [c]
  else if m.isAscii then [c, c.toLower, c.toUpper]
  else c :: Smalls.spellings c

/-- A word character. -/
def isWord (m : Mode) (c : Char) : Bool :=
  if m.isAscii then c.isAlphanum || c == '_' else Letter.isWord c

/-- A digit. -/
def isDigit (m : Mode) (c : Char) : Bool :=
  if m.isAscii then c.isDigit else Letter.isDigit c

/-- A blank. -/
def isBlank (m : Mode) (c : Char) : Bool :=
  if m.isAscii then c == ' ' || (9 ≤ c.toNat && c.toNat ≤ 13) else Letter.isBlank c

end Mode

/-- The classes of characters that have signs of their own. -/
inductive Kind where
  | digit
  | blank
  | word
deriving DecidableEq, Repr

/-- The character belongs to a class. -/
def Kind.holds (m : Mode) (c : Char) : Kind → Bool
  | digit => m.isDigit c
  | blank => m.isBlank c
  | word => m.isWord c

/-- A part of a set of characters. -/
inductive Item where
  | char (c : Char)
  /-- The characters with codes from the first to the last. -/
  | range (first last : Nat)
  /-- The characters of a class, or all others. -/
  | kind (k : Kind) (isNegated : Bool)
deriving DecidableEq, Repr

/-- The part holds a character. -/
def Item.holds (m : Mode) (c : Char) : Item → Bool
  | char l => m.same l c
  | range first last => (m.spellings c).any fun d => first ≤ d.toNat && d.toNat ≤ last
  | kind k isNegated => k.holds m c != isNegated

/-- A set of characters. -/
structure CharSet where
  items : List Item
  /-- The set holds all characters but those of its parts. -/
  isNegated : Bool := false
deriving DecidableEq, Repr

/-- The set holds a character. -/
def CharSet.holds (m : Mode) (s : CharSet) (c : Char) : Bool :=
  (s.items.any fun i => i.holds m c) != s.isNegated

/-- Signs for places between characters. -/
inductive Anchor where
  | textStart
  /-- The start of the text, or behind a line feed. -/
  | lineStart
  | textEnd
  /-- The end of the text, or before a line feed. -/
  | lineEnd
  /-- The end of the text, or before a line feed at its end. -/
  | lastEnd
  /-- The start or the end of a word. -/
  | wordEdge
  /-- Neither the start nor the end of a word, in a text that is not empty. -/
  | noWordEdge
deriving DecidableEq, Repr

end Pattern

open Pattern in
/-- A pattern. -/
inductive Pattern where
  /-- Reads nothing. -/
  | empty
  /-- Reads a character of a set. -/
  | one (m : Mode) (s : CharSet)
  /-- Reads nothing, at certain places only. -/
  | anchor (m : Mode) (a : Anchor)
  | seq (p q : Pattern)
  /-- Reads what one of two patterns reads; the first one is tried first. -/
  | either (p q : Pattern)
  /-- Reads repetitions of a pattern, as many or as few as possible. -/
  | many (p : Pattern) (isGreedy : Bool) (least : Nat) (most : Option Nat)
  /-- Reads what the pattern reads first, and nothing else. -/
  | atomic (p : Pattern)
  /-- Remembers what the pattern reads under a number. -/
  | group (n : Nat) (p : Pattern)
  /-- Reads what a group has read; `least` and `most` bound its length. -/
  | again (m : Mode) (n : Nat) (least : Nat) (most : Option Nat)
  /-- Reads nothing, where the pattern could read on, or where it could not. -/
  | ahead (p : Pattern) (isNegated : Bool)
  /-- Reads nothing, where the pattern could read the given number of characters before, or where
  it could not. -/
  | behind (p : Pattern) (width : Nat) (isNegated : Bool)
  /-- Reads what the first pattern reads if a group has read something, else what the second one
  reads. -/
  | given (n : Nat) (p q : Pattern)

namespace Pattern

/-- The greater of two lengths, of which none is bounded. -/
def longer : Option Nat → Option Nat → Option Nat
  | some a, some b => some (max a b)
  | _, _ => none

/-- The greatest length of so many repetitions. -/
def longest (most count : Option Nat) : Option Nat :=
  if most = some 0 || count = some 0 then some 0
  else do
    let n ← most
    let k ← count
    some (n * k)

/-- The least and the greatest number of characters that a pattern reads. -/
def width : Pattern → Nat × Option Nat
  | one _ _ => (1, some 1)
  | seq p q =>
    let (a, b) := p.width
    let (c, d) := q.width
    (a + c, do
      let b ← b
      let d ← d
      some (b + d))
  | either p q => (min p.width.1 q.width.1, longer p.width.2 q.width.2)
  | many p _ least most => (p.width.1 * least, longest p.width.2 most)
  | atomic p => p.width
  | group _ p => p.width
  | again _ _ least most => (least, most)
  | given _ p q => (min p.width.1 q.width.1, longer p.width.2 q.width.2)
  | empty => (0, some 0)
  | anchor _ _ => (0, some 0)
  | ahead _ _ => (0, some 0)
  | behind _ _ _ => (0, some 0)

end Pattern
end UmlDraw
