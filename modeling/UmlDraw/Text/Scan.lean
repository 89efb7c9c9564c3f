/-
# Scanning a line

The lines of the diagram notation are recognised by *scans*.  A scan reads some characters from
the front of a text and hands its result and the rest of the text to what follows; when what
follows fails, the scan tries its next way of reading.  The order of the ways is part of a scan:
a greedy repetition tries the longest reading first, a lazy one the shortest, and of two
alternatives the first comes first.  So every line form has at most one reading, the first that
lets the whole form succeed.

`Scan.whole` reads a whole text, `Scan.start` a beginning of it, and `Scan.search` looks for the
first place where a scan succeeds.
-/
import UmlDraw.Text.Chars

namespace UmlDraw

/-- A way to read the front of a text; see the head of this file. -/
structure Scan (α : Type) where
  /-- Tries the readings of the front of a text in order, each followed by the given
  continuation, and returns the first success. -/
  run : {β : Type} → List Char → (α → List Char → Option β) → Option β

namespace Scan

variable {α : Type}

instance : Monad Scan where
  pure a := ⟨fun s next => next a s⟩
  bind p f := ⟨fun s next => p.run s fun a rest => (f a).run rest next⟩

/-- The readings of the first scan, then those of the second. -/
def either (p q : Scan α) : Scan α :=
  ⟨fun s next =>
    match p.run s next with
    | some b => some b
    | none => q.run s next⟩

instance : OrElse (Scan α) where
  orElse p q := either p (q ())

/-- No reading. -/
def fail : Scan α :=
  ⟨fun _ _ => none⟩

/-- The readings of all scans of a list, in order. -/
def anyOf : List (Scan α) → Scan α
  | [] => fail
  | p :: ps => either p (anyOf ps)

/-- The result of a scan that reads the whole text. -/
def whole (p : Scan α) (s : List Char) : Option α :=
  p.run s fun a rest => if rest.isEmpty then some a else none

/-- The result of a scan that reads the beginning of the text, with the rest. -/
def start (p : Scan α) (s : List Char) : Option (α × List Char) :=
  p.run s fun a rest => some (a, rest)

/-- The first place where a scan succeeds: the text before it, the result and the rest. -/
def search (p : Scan α) : List Char → Option (List Char × α × List Char)
  | [] => (p.start []).map fun (a, rest) => ([], a, rest)
  | c :: s =>
    match p.start (c :: s) with
    | some (a, rest) => some ([], a, rest)
    | none => (search p s).map fun (before, found) => (c :: before, found)

/-- The scan succeeds on the whole text. -/
def reads (p : Scan α) (s : List Char) : Bool :=
  (p.whole s).isSome

/-- The scan succeeds on a beginning of the text. -/
def begins (p : Scan α) (s : List Char) : Bool :=
  (p.start s).isSome

/-- The scan succeeds somewhere in the text. -/
def occurs (p : Scan α) (s : List Char) : Bool :=
  (p.search s).isSome

/-- One character of a class. -/
def satisfy (p : Char → Bool) : Scan Char :=
  ⟨fun s next =>
    match s with
    | [] => none
    | c :: rest => if p c then next c rest else none⟩

/-- The given character. -/
def char (c : Char) : Scan Char :=
  satisfy (· == c)

/-- Reads nothing, if the rest of the text passes a test. -/
def ahead (p : List Char → Bool) : Scan Unit :=
  ⟨fun s next => if p s then next () s else none⟩

/-- Reads nothing, if a condition holds. -/
def require (b : Bool) : Scan Unit :=
  if b then pure () else fail

/-- The end of the text. -/
def atEnd : Scan Unit :=
  ahead List.isEmpty

/-- The place behind a word: no word character follows. -/
def wordEnd : Scan Unit :=
  ahead fun
    | [] => true
    | c :: _ => !Letter.isWord c

/-- Exactly the given characters. -/
def chars : List Char → Scan Unit
  | [] => pure ()
  | c :: cs => do
    let _ ← char c
    chars cs

/-- Exactly the given text. -/
def text (s : String) : Scan Unit :=
  chars s.toList

/-- The characters of a keyword in any case, as they are written. -/
def spelled : List Char → Scan (List Char)
  | [] => pure []
  | k :: ks => do
    let c ← satisfy (Letter.sameLetter k)
    let cs ← spelled ks
    pure (c :: cs)

/-- A keyword, given in small letters, in any case. -/
def keyword (word : String) : Scan Unit := do
  let _ ← spelled word.toList
  pure ()

/-- The small letters for a character of a keyword; a dotted capital `i` keeps its dot. -/
def lowered (c : Char) : List Char :=
  if c == '\u0130' then ['i', '\u0307'] else [Letter.small c]

/-- One of several keywords, given in small letters, in any case.  The result is the word in small
letters; the unusual letters that are accepted for `i` and `s` stay as they are. -/
def oneOf (words : List String) : Scan String := do
  let cs ← anyOf (words.map fun word => spelled word.toList)
  pure (String.ofList (cs.flatMap lowered))

/-- Tries the longest run of characters of a class first.  What follows gets the characters read so
far in reverse order. -/
def longest {β : Type} (p : Char → Bool) (next : List Char → List Char → Option β) :
    List Char → List Char → Option β
  | seen, [] => next seen []
  | seen, c :: s =>
    if p c then
      match longest p next (c :: seen) s with
      | some b => some b
      | none => next seen (c :: s)
    else next seen (c :: s)

/-- Tries the shortest run of characters of a class first.  What follows gets the characters read so
far in reverse order. -/
def shortest {β : Type} (p : Char → Bool) (next : List Char → List Char → Option β) :
    List Char → List Char → Option β
  | seen, [] => next seen []
  | seen, c :: s =>
    match next seen (c :: s) with
    | some b => some b
    | none => if p c then shortest p next (c :: seen) s else none

/-- Characters of a class, as many as possible. -/
def many (p : Char → Bool) : Scan String :=
  ⟨fun s next => longest p (fun seen => next (String.ofList seen.reverse)) [] s⟩

/-- Characters of a class, as few as possible. -/
def few (p : Char → Bool) : Scan String :=
  ⟨fun s next => shortest p (fun seen => next (String.ofList seen.reverse)) [] s⟩

/-- At least one character of a class, as many as possible. -/
def many1 (p : Char → Bool) : Scan String :=
  ⟨fun s next =>
    match s with
    | [] => none
    | c :: rest =>
      if p c then longest p (fun seen => next (String.ofList seen.reverse)) [c] rest else none⟩

/-- At least one character of a class, as few as possible. -/
def few1 (p : Char → Bool) : Scan String :=
  ⟨fun s next =>
    match s with
    | [] => none
    | c :: rest =>
      if p c then shortest p (fun seen => next (String.ofList seen.reverse)) [c] rest else none⟩

/-- A whole run of characters of a class, at least one.  It ends where the class ends, so there is
no other reading. -/
def run1 (p : Char → Bool) : Scan String :=
  ⟨fun s next =>
    match s.takeWhile p with
    | [] => none
    | c :: cs => next (String.ofList (c :: cs)) (s.dropWhile p)⟩

/-- Passes over characters of a class, as many as possible. -/
def skip (p : Char → Bool) : Scan Unit :=
  ⟨fun s next => longest p (fun _ => next ()) [] s⟩

/-- Passes over characters of a class, as few as possible. -/
def skipFew (p : Char → Bool) : Scan Unit :=
  ⟨fun s next => shortest p (fun _ => next ()) [] s⟩

/-- Passes over characters of a class, at least one and as many as possible. -/
def skip1 (p : Char → Bool) : Scan Unit := do
  let _ ← satisfy p
  skip p

/-- Passes over characters of a class, at least one and as few as possible. -/
def skipFew1 (p : Char → Bool) : Scan Unit := do
  let _ ← satisfy p
  skipFew p

/-- A reading of the scan, or nothing. -/
def optional (p : Scan α) : Scan (Option α) :=
  either (some <$> p) (pure none)

/-- Whether the scan has a reading here. -/
def present (p : Scan α) : Scan Bool :=
  either ((fun _ => true) <$> p) (pure false)

/-- At most the given number of readings in sequence, as many as possible. -/
def upTo (p : Scan α) : Nat → Scan (List α)
  | 0 => pure []
  | n + 1 =>
    either
      (do
        let a ← p
        let as ← upTo p n
        pure (a :: as))
      (pure [])

/-- Readings in sequence, as many as possible.  Each must read at least one character. -/
def repeated (p : Scan α) : Scan (List α) :=
  ⟨fun s next => (upTo p s.length).run s next⟩

/-- The result of a scan with the text that it reads. -/
def withText (p : Scan α) : Scan (α × String) :=
  ⟨fun s next =>
    p.run s fun a rest => next (a, String.ofList (s.take (s.length - rest.length))) rest⟩

/-- The text that a scan reads. -/
def captured (p : Scan α) : Scan String :=
  Prod.snd <$> withText p

/-- The given text, with the text as result. -/
def literal (s : String) : Scan String := do
  text s
  pure s

/-- Any character but a line feed. -/
def inLine (c : Char) : Bool :=
  c != '\n'

/-- Blanks, as many as possible. -/
def blanks : Scan Unit :=
  skip Letter.isBlank

/-- At least one blank, as many as possible. -/
def blanks1 : Scan Unit :=
  skip1 Letter.isBlank

/-- The characters that a scan reads are all that is left but blanks. -/
def lastly (p : Scan α) : Scan α := do
  let a ← p
  blanks
  atEnd
  pure a

/-- Removes every occurrence of a scan that reads at least one character, from the left and
without overlap.  The first argument bounds the number of steps. -/
def eraseWithin (p : Scan α) : Nat → List Char → List Char
  | 0, s => s
  | _ + 1, [] => []
  | n + 1, c :: s =>
    match p.start (c :: s) with
    | some (_, rest) => eraseWithin p n rest
    | none => c :: eraseWithin p n s

/-- Removes every occurrence of a scan that reads at least one character, from the left and
without overlap. -/
def erase (p : Scan α) (s : List Char) : List Char :=
  eraseWithin p (s.length + 1) s

/-- The results of a scan at its occurrences, from the left and without overlap.  The first
argument bounds the number of steps. -/
def occurrencesWithin (p : Scan α) : Nat → List Char → List α
  | 0, _ => []
  | _ + 1, [] => []
  | n + 1, c :: s =>
    match p.start (c :: s) with
    | some (a, rest) => a :: occurrencesWithin p n rest
    | none => occurrencesWithin p n s

/-- The results of a scan that reads at least one character at its occurrences, from the left and
without overlap. -/
def occurrences (p : Scan α) (s : List Char) : List α :=
  occurrencesWithin p (s.length + 1) s

end Scan
end UmlDraw
