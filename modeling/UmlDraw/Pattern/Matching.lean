/-
# Reading with patterns

A pattern reads on from a `Place` in a text and hands the place behind what it has read to what
follows; when what follows fails, it tries its next way of reading.  `Pattern.occurs` says whether a
pattern reads something somewhere in a text.
-/
import UmlDraw.Pattern.Basic

namespace UmlDraw
namespace Pattern

/-- A place in a text. -/
structure Place where
  /-- What stands before it, the nearest character first. -/
  before : List Char
  /-- What stands behind it. -/
  rest : List Char
  /-- The number of characters behind it. -/
  left : Nat
  /-- What groups have read so far. -/
  groups : List (Nat × List Char) := []

namespace Place

/-- The place behind the next character, if that passes a test. -/
def step? (pl : Place) (p : Char → Bool) : Option Place :=
  match pl.rest with
  | [] => none
  | c :: s =>
    if p c then some { pl with before := c :: pl.before, rest := s, left := pl.left - 1 } else none

/-- The place so many characters before. -/
def back? : Nat → Place → Option Place
  | 0, pl => some pl
  | n + 1, pl =>
    match pl.before with
    | [] => none
    | c :: s => back? n { pl with before := s, rest := c :: pl.rest, left := pl.left + 1 }

/-- The place, where a group has read what stands behind an earlier place. -/
def capture (pl : Place) (n : Nat) (start : Place) : Place :=
  { pl with groups := (n, start.rest.take (start.left - pl.left)) :: pl.groups }

/-- The place behind a given text. -/
def readAll (m : Mode) : List Char → Place → Option Place
  | [], pl => some pl
  | c :: s, pl => (pl.step? (m.same c)).bind (readAll m s)

/-- The place behind what a group has read before. -/
def repeat? (m : Mode) (n : Nat) (pl : Place) : Option Place :=
  (pl.groups.lookup n).bind fun s => readAll m s pl

/-- One of the characters at both sides of the place is a word character. -/
def isEdge (m : Mode) (pl : Place) : Bool :=
  (pl.before.head?.any m.isWord) != (pl.rest.head?.any m.isWord)

end Place

/-- The sign stands for a place. -/
def Anchor.holds (m : Mode) (pl : Place) : Anchor → Bool
  | textStart => pl.before.isEmpty
  | lineStart => pl.before.head?.all (· == '\n')
  | textEnd => pl.rest.isEmpty
  | lineEnd => pl.rest.head?.all (· == '\n')
  | lastEnd => pl.rest.isEmpty || pl.rest == ['\n']
  | wordEdge => pl.isEdge m
  | noWordEdge => !(pl.before.isEmpty && pl.rest.isEmpty) && !pl.isEdge m

/-- Repeats a way of reading.  A repetition that reads nothing is the last one.  The first number
bounds the number of repetitions, the second one counts those that were read. -/
def repeated (read : Place → (Place → Option Place) → Option Place) (isGreedy : Bool) (least : Nat)
    (most : Option Nat) : Nat → Nat → Place → (Place → Option Place) → Option Place
  | 0, _, _, _ => none
  | bound + 1, count, pl, next =>
    let further : Unit → Option Place := fun _ =>
      if most.all (count < ·) then
        read pl fun pl' =>
          if pl'.left < pl.left then repeated read isGreedy least most bound (count + 1) pl' next
          else next pl'
      else none
    if count < least then further ()
    else if isGreedy then
      match further () with
      | some r => some r
      | none => next pl
    else
      match next pl with
      | some r => some r
      | none => further ()

/-- Repeats the reading of single characters that pass a test, as `repeated` does for any way of
reading.  The numbers are those of the characters left and of the repetitions read. -/
def repeatedOne (p : Char → Bool) (isGreedy : Bool) (least : Nat) (most : Option Nat)
    (groups : List (Nat × List Char)) (next : Place → Option Place) :
    List Char → Nat → Nat → List Char → Option Place
  | before, left, count, [] =>
    if count < least then none else next ⟨before, [], left, groups⟩
  | before, left, count, c :: s =>
    let further : Unit → Option Place := fun _ =>
      if most.all (count < ·) && p c then
        repeatedOne p isGreedy least most groups next (c :: before) (left - 1) (count + 1) s
      else none
    if count < least then further ()
    else if isGreedy then
      match further () with
      | some r => some r
      | none => next ⟨before, c :: s, left, groups⟩
    else
      match next ⟨before, c :: s, left, groups⟩ with
      | some r => some r
      | none => further ()

/-- Tries the ways of reading on from a place in order, each followed by the given continuation, and
returns the first success. -/
def run : Pattern → Place → (Place → Option Place) → Option Place
  | empty, pl, next => next pl
  | one m s, pl, next =>
    match pl.step? (s.holds m) with
    | some pl => next pl
    | none => none
  | anchor m a, pl, next => if a.holds m pl then next pl else none
  | seq p q, pl, next => p.run pl fun pl => q.run pl next
  | either p q, pl, next =>
    match p.run pl next with
    | some r => some r
    | none => q.run pl next
  | many (one m s) isGreedy least most, pl, next =>
    repeatedOne (s.holds m) isGreedy least most pl.groups next pl.before pl.left 0 pl.rest
  | many p isGreedy least most, pl, next =>
    repeated p.run isGreedy least most (pl.left + 1) 0 pl next
  | atomic p, pl, next => (p.run pl some).bind next
  | group n p, pl, next => p.run pl fun pl' => next (pl'.capture n pl)
  | again m n _ _, pl, next => (pl.repeat? m n).bind next
  | ahead p isNegated, pl, next =>
    match p.run pl some, isNegated with
    | some r, false => next { pl with groups := r.groups }
    | none, true => next pl
    | _, _ => none
  | behind p width isNegated, pl, next =>
    match (pl.back? width).bind fun start => p.run start some, isNegated with
    | some r, false => next { pl with groups := r.groups }
    | none, true => next pl
    | _, _ => none
  | given n p q, pl, next =>
    if (pl.groups.lookup n).isSome then p.run pl next else q.run pl next

/-- The pattern reads something from here on or further on. -/
def occursFrom (p : Pattern) (before : List Char) (left : Nat) : List Char → Bool
  | [] => (p.run ⟨before, [], left, []⟩ some).isSome
  | c :: s =>
    (p.run ⟨before, c :: s, left, []⟩ some).isSome || occursFrom p (c :: before) (left - 1) s

/-- The pattern reads something somewhere in a text. -/
def occurs (p : Pattern) (text : List Char) : Bool :=
  occursFrom p [] text.length text

end Pattern
end UmlDraw
