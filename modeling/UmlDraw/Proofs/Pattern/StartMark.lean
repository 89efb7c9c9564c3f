/-
# Where a text has a start mark

A start mark is looked for with a pattern, which is read from its signs and then tried at every
place of the text.  What comes out is simple: there is a start mark where a line begins with blanks,
`@start` and the name in any case, and a word begins or ends behind it.  Blanks may be line breaks,
but only a line feed begins a line.

The main statements are

* `Source.startMark_eq`: the pattern of a start mark;
* `Source.occurs_markPattern`: the places where it is found.
-/
import Mathlib.Tactic.Lemma
import UmlDraw.Source.Line

namespace UmlDraw
namespace Pattern

/-! ### Reading the pattern -/

/-- The characters that do not stand for themselves in a pattern. -/
def specials : List Char :=
  ['\\', '*', '+', '?', '\x7b', '.', '^', '$', '[', '(', '|', ')']

/-- The part of a pattern for a character that stands for itself. -/
def letterPart (m : Mode) (c : Char) : Part :=
  ⟨one m ⟨[.char c], false⟩, true⟩

/-- The part of a pattern for any number of blanks. -/
def blanksPart (m : Mode) : Part :=
  ⟨many (one m ⟨[.kind .blank false], false⟩) true 0 none, false⟩

/-- The part of a pattern for a place. -/
def placePart (m : Mode) (a : Anchor) : Part :=
  ⟨anchor m a, false⟩

variable {m : Mode} {c : Char} {cs : List Char} {r : Reader} {ts : List Sign}

lemma signs_append (h : ∀ c ∈ cs, c ∉ specials) (s : List Char) :
    signs (cs ++ s) = (signs s).map (cs.map .plain ++ ·) := by
  induction cs with
  | nil =>
    show signs s = (signs s).map id
    cases signs s <;> rfl
  | cons c cs ih =>
    obtain ⟨hc, hcs⟩ := List.forall_mem_cons.1 h
    have hslash : c ≠ '\\' := by
      rintro rfl
      exact hc (by decide)
    rw [List.cons_append, signs, ih hcs]
    · cases signs s <;> rfl
    · rintro rfl
      exact absurd rfl hslash
    · rintro _ _ rfl
      exact absurd rfl hslash

namespace Read

variable {α β : Type}

lemma run_pure (a : α) (r : Reader) : (pure a : Read α) r = .ok (a, r) :=
  rfl

lemma run_bind (p : Read α) (f : α → Read β) (r : Reader) :
    (p >>= f) r = (p r).bind fun x => f x.1 x.2 :=
  rfl

lemma run_map (f : α → β) (p : Read α) (r : Reader) :
    (f <$> p) r = (p r).bind fun x => .ok (f x.1, x.2) :=
  rfl

lemma run_peek (r : Reader) : peek r = .ok (r.rest.head?, r) :=
  rfl

lemma run_next (t : Sign) (ts : List Sign) (r : Reader) :
    next { r with rest := t :: ts } = .ok (t, { r with rest := ts }) :=
  rfl

lemma run_accept (c : Char) (t : Sign) (ts : List Sign) (r : Reader) :
    accept c { r with rest := t :: ts } =
      .ok (decide (t = .plain c), { r with rest := if t = .plain c then ts else t :: ts }) := by
  have haccept : accept c { r with rest := t :: ts } =
      (if t = .plain c then set { r with rest := ts } >>= fun _ => pure true
        else pure false : Read Bool) { r with rest := t :: ts } := rfl
  rw [haccept]
  by_cases h : t = .plain c
  · simp only [if_pos h, decide_eq_true h]
    rfl
  · simp only [if_neg h, decide_eq_false h]
    rfl

/-- A character that stands for itself is read as such. -/
lemma sequence_plain (hm : m.isSpaced = false) (hc : c ∉ specials) (bound : Nat)
    (parts : List Part) :
    sequence (bound + 2) m parts { r with rest := .plain c :: ts } =
      sequence (bound + 1) m (parts ++ [letterPart m c]) { r with rest := ts } := by
  simp only [specials, List.mem_cons, List.not_mem_nil, or_false, not_or] at hc
  simp [sequence, part, run_bind, run_pure, run_peek, run_next, Except.bind, hm, hc, letterPart]

lemma sequence_letters (hm : m.isSpaced = false) (h : ∀ c ∈ cs, c ∉ specials) (bound : Nat)
    (parts : List Part) :
    sequence (bound + cs.length + 1) m parts { r with rest := cs.map .plain ++ ts } =
      sequence (bound + 1) m (parts ++ cs.map (letterPart m)) { r with rest := ts } := by
  induction cs generalizing parts with
  | nil => simp
  | cons c cs ih =>
    obtain ⟨hc, hcs⟩ := List.forall_mem_cons.1 h
    rw [List.map_cons, List.cons_append, List.length_cons, ← Nat.add_assoc,
      sequence_plain hm hc, ih hcs]
    simp

/-- The signs in front of a mark: the start of a line, and blanks. -/
lemma sequence_front (hm : m.isSpaced = false) (hline : m.byLine = true) (hc : c ∉ specials)
    (bound : Nat) :
    sequence (bound + 4) m [] { r with
        rest := .plain '^' :: .escaped 's' :: .plain '*' :: .plain c :: ts } =
      sequence (bound + 1) m [placePart m .lineStart, blanksPart m]
        { r with rest := .plain c :: ts } := by
  simp only [specials, List.mem_cons, List.not_mem_nil, or_false, not_or] at hc
  simp [sequence, part, run_bind, run_pure, run_map, run_peek, run_next, run_accept, Except.bind,
    hm, hline, hc, escape, commonEscape, control?, class?, repeatLast, placePart, blanksPart]

/-- The last sign, for the start or the end of a word. -/
lemma sequence_edge (bound : Nat) (parts : List Part) :
    sequence (bound + 2) m parts { r with rest := [.escaped 'b'] } =
      .ok (ofParts (parts ++ [placePart m .wordEdge]), { r with rest := [] }) := by
  simp [sequence, part, run_bind, run_pure, run_peek, run_next, Except.bind, escape, placePart]

end Read
end Pattern

namespace Source

open Pattern

/-- How the signs of a start mark are understood. -/
def markMode : Mode :=
  { ignoresCase := true, byLine := true }

/-- The pattern of a start mark with the given letters. -/
def markPattern (letters : List Char) : Pattern :=
  ofParts ([placePart markMode .lineStart, blanksPart markMode] ++
    letters.map (letterPart markMode) ++ [placePart markMode .wordEdge])

/-- The letters of a start mark. -/
def markLetters (name : String) : List Char :=
  "@start".toList ++ name.toList

lemma sequence_mark {letters : List Char} (h : ∀ c ∈ '@' :: letters, c ∉ specials) (bound : Nat) :
    Read.sequence (bound + 1 + ('@' :: letters).length + 4) markMode []
        { rest := .plain '^' :: .escaped 's' :: .plain '*' ::
            (('@' :: letters).map .plain ++ [.escaped 'b']) } =
      .ok (markPattern ('@' :: letters), { rest := [] }) := by
  have hat : '@' ∉ specials := (List.forall_mem_cons.1 h).1
  let front : List Part := [placePart markMode .lineStart, blanksPart markMode]
  let signs : List Sign := ('@' :: letters).map .plain ++ [.escaped 'b']
  calc Read.sequence (bound + 1 + ('@' :: letters).length + 4) markMode []
        { rest := .plain '^' :: .escaped 's' :: .plain '*' :: signs }
    _ = Read.sequence (bound + 1 + ('@' :: letters).length + 1) markMode front { rest := signs } :=
      Read.sequence_front (r := { rest := [] }) rfl rfl hat _
    _ = Read.sequence (bound + 2) markMode
          (front ++ ('@' :: letters).map (letterPart markMode)) { rest := [.escaped 'b'] } :=
      Read.sequence_letters (r := { rest := [] }) rfl h (bound + 1) front
    _ = .ok (markPattern ('@' :: letters), { rest := [] }) :=
      Read.sequence_edge (r := { rest := [] }) bound _

lemma signs_mark {letters : List Char} (h : ∀ c ∈ letters, c ∉ specials) :
    signs (['^', '\\', 's', '*'] ++ (letters ++ ['\\', 'b'])) =
      .ok (.plain '^' :: .escaped 's' :: .plain '*' :: (letters.map .plain ++ [.escaped 'b'])) := by
  have hfront : ∀ s, signs (['^', '\\', 's', '*'] ++ s) =
      (signs s).map (.plain '^' :: .escaped 's' :: .plain '*' :: ·) := by
    intro s
    show Except.map _ (Except.map _ (Except.map _ (signs s))) = _
    cases signs s <;> rfl
  rw [hfront, signs_append h]
  rfl

/-- The pattern of a start mark, if the characters of the name stand for themselves. -/
theorem startMark_eq {name : String} (h : ∀ c ∈ name.toList, c ∉ specials) :
    startMark name = .ok (markPattern (markLetters name)) := by
  obtain ⟨letters, hletters⟩ : ∃ letters, markLetters name = '@' :: letters := ⟨_, rfl⟩
  have hplain : ∀ c ∈ '@' :: letters, c ∉ specials := by
    rw [← hletters]
    exact List.forall_mem_append.2 ⟨by decide, h⟩
  have hchars : ("^\\s*@start" ++ name ++ "\\b").toList =
      ['^', '\\', 's', '*'] ++ ('@' :: letters ++ ['\\', 'b']) := by
    rw [← hletters, markLetters]
    simp
  let ts : List Sign :=
    .plain '^' :: .escaped 's' :: .plain '*' :: (('@' :: letters).map .plain ++ [.escaped 'b'])
  have hbound : 4 * ts.length + 4 =
      3 * letters.length + 17 + 1 + ('@' :: letters).length + 4 + 1 := by
    simp only [ts, List.length_cons, List.length_append, List.length_map, List.length_nil]
    omega
  have hsequence := sequence_mark hplain (3 * letters.length + 17)
  have halternatives : Read.alternatives (4 * ts.length + 4) markMode { rest := ts } =
      .ok (markPattern ('@' :: letters), { rest := [] }) := by
    rw [hbound, Read.alternatives, Read.run_bind, hsequence]
    rfl
  have hpattern : Read.pattern markMode { rest := ts } =
      .ok (markPattern ('@' :: letters), { rest := [] }) := by
    show (Read.alternatives (4 * ts.length + 4) markMode { rest := ts }).bind _ = _
    rw [halternatives]
    rfl
  have hread : Pattern.read markMode ("^\\s*@start" ++ name ++ "\\b").toList =
      .ok (markPattern ('@' :: letters)) := by
    rw [Pattern.read, hchars, signs_mark hplain]
    show (Read.pattern markMode { rest := ts }).bind _ = _
    rw [hpattern]
    rfl
  rw [hletters]
  exact hread

/-! ### Trying the pattern -/

/-- What is left behind the letters of a word in any case, with the last character before it. -/
def spelled? : List Char → Option Char → List Char → Option (Option Char × List Char)
  | [], last, s => some (last, s)
  | _ :: _, _, [] => none
  | k :: ks, _, c :: s => if Smalls.sameLetter k c then spelled? ks (some c) s else none

/-- A word begins or ends between a character and the text behind it. -/
def isEdge (last : Option Char) (rest : List Char) : Bool :=
  last.any Letter.isWord != rest.head?.any Letter.isWord

/-- A text begins with a start mark, behind blanks. -/
def atMark (name : String) (s : List Char) : Bool :=
  (spelled? (markLetters name) none (Chars.trimLeft s)).any fun x => isEdge x.1 x.2

/-- Behind a line feed a text goes on with a start mark. -/
def markBehindFeed (name : String) : List Char → Bool
  | [] => false
  | c :: s => (c == '\n' && atMark name s) || markBehindFeed name s

variable {name : String} {letters before s : List Char} {left : Nat}

lemma run_ofParts_cons (p : Part) (ps : List Part) (pl : Place) (next : Place → Option Place) :
    (ofParts (p :: ps)).run pl next = p.pattern.run pl fun pl => (ofParts ps).run pl next := by
  cases ps <;> rfl

/-- Behind a letter it does not matter what stood before it. -/
lemma spelled?_cons (k : Char) (ks : List Char) (last : Option Char) (s : List Char) :
    spelled? (k :: ks) last s = spelled? (k :: ks) none s := by
  cases s <;> rfl

lemma run_letters (letters before s : List Char) (left : Nat) :
    ((ofParts (letters.map (letterPart markMode) ++ [placePart markMode .wordEdge])).run
        ⟨before, s, left, []⟩ some).isSome =
      (spelled? letters before.head? s).any fun x => isEdge x.1 x.2 := by
  induction letters generalizing before s left with
  | nil =>
    have hedge :
        Anchor.holds markMode ⟨before, s, left, []⟩ .wordEdge = isEdge before.head? s := rfl
    show ((if Anchor.holds markMode ⟨before, s, left, []⟩ .wordEdge then
      some (Place.mk before s left []) else none) : Option Place).isSome = isEdge before.head? s
    rw [hedge]
    cases isEdge before.head? s <;> rfl
  | cons k ks ih =>
    rw [List.map_cons, List.cons_append, run_ofParts_cons]
    cases s with
    | nil => rfl
    | cons c s =>
      have hholds : CharSet.holds markMode ⟨[.char k], false⟩ c = Smalls.sameLetter k c := by
        simp [CharSet.holds, Item.holds, Mode.same, markMode]
      simp only [letterPart, run, Place.step?, hholds, spelled?]
      by_cases hsame : Smalls.sameLetter k c = true
      · simp only [hsame, if_true]
        exact ih (c :: before) s _
      · simp only [hsame, Bool.false_eq_true, if_false]
        rfl

/-- No blank passes for the first letter of a start mark. -/
lemma sameLetter_at_of_isBlank {c : Char} (h : Letter.isBlank c = true) :
    Smalls.sameLetter '@' c = false := by
  let codes : List Nat := [9, 10, 11, 12, 13, 28, 29, 30, 31, 32, 0x85, 0xa0, 0x1680, 0x2000,
    0x2001, 0x2002, 0x2003, 0x2004, 0x2005, 0x2006, 0x2007, 0x2008, 0x2009, 0x200a, 0x2028, 0x2029,
    0x202f, 0x205f, 0x3000]
  have hcode : c.toNat ∈ codes := by
    simp only [Letter.isBlank, Bool.or_eq_true, Bool.and_eq_true, decide_eq_true_eq,
      beq_iff_eq] at h
    simp only [codes, List.mem_cons, List.not_mem_nil, or_false]
    omega
  have hall : ∀ n ∈ codes, Smalls.sameLetter '@' (Char.ofNat n) = false := by decide +kernel
  have hc := hall _ hcode
  rwa [Char.ofNat_toNat] at hc

/-- Blanks are read as far as they go, if nothing that follows begins with a blank. -/
lemma repeatedOne_eq {p : Char → Bool} {next : Place → Option Place}
    (hnext : ∀ before left c s, p c = true → next ⟨before, c :: s, left, []⟩ = none)
    (before s : List Char) (left count : Nat) :
    repeatedOne p true 0 none [] next before left count s =
      next ⟨(s.takeWhile p).reverse ++ before, s.dropWhile p,
        left - (s.takeWhile p).length, []⟩ := by
  induction s generalizing before left count with
  | nil => rfl
  | cons c s ih =>
    by_cases hc : p c = true
    · have htake : (c :: s).takeWhile p = c :: s.takeWhile p := List.takeWhile_cons_of_pos hc
      have hdrop : (c :: s).dropWhile p = s.dropWhile p := List.dropWhile_cons_of_pos hc
      have hleft : left - (c :: s.takeWhile p).length = left - 1 - (s.takeWhile p).length := by
        rw [List.length_cons]
        omega
      rw [htake, hdrop, hleft, List.reverse_cons, List.append_assoc, List.singleton_append, ← ih]
      simp only [repeatedOne, Nat.not_lt_zero, if_false, if_true, Option.all_none, Bool.true_and,
        hc, hnext _ _ c s hc]
      cases repeatedOne p true 0 none [] next (c :: before) (left - 1) (count + 1) s <;> rfl
    · simp [repeatedOne, hc]

/-- What the pattern of a start mark reads at a place. -/
lemma run_markPattern (name : String) (before s : List Char) (left : Nat) :
    ((markPattern (markLetters name)).run ⟨before, s, left, []⟩ some).isSome =
      (before.head?.all (· == '\n') && atMark name s) := by
  obtain ⟨letters, hletters⟩ : ∃ letters, markLetters name = '@' :: letters := ⟨_, rfl⟩
  let p : Pattern :=
    ofParts ((markLetters name).map (letterPart markMode) ++ [placePart markMode .wordEdge])
  have hblank : CharSet.holds markMode ⟨[.kind .blank false], false⟩ = Letter.isBlank := by
    funext c
    simp [CharSet.holds, Item.holds, Kind.holds, Mode.isBlank, markMode]
  have hnext : ∀ before left c s, Letter.isBlank c = true →
      p.run ⟨before, c :: s, left, []⟩ some = none := by
    intro before left c s hc
    have hnone : spelled? (markLetters name) before.head? (c :: s) = none := by
      rw [hletters, spelled?, sameLetter_at_of_isBlank hc, if_neg Bool.false_ne_true]
    have hrun := run_letters (markLetters name) before (c :: s) left
    rw [hnone] at hrun
    rw [← Option.not_isSome_iff_eq_none, Bool.not_eq_true]
    exact hrun
  have hrun : (markPattern (markLetters name)).run ⟨before, s, left, []⟩ some =
      if before.head?.all (· == '\n') then
        repeatedOne Letter.isBlank true 0 none [] (fun pl => p.run pl some) before left 0 s
      else none := by
    rw [← hblank]
    rfl
  rw [hrun, repeatedOne_eq hnext]
  cases before.head?.all (· == '\n') with
  | false => rfl
  | true =>
    refine (run_letters (markLetters name) _ _ _).trans ?_
    rw [hletters, spelled?_cons, ← hletters]
    rfl

/-- A start mark is found at the front of a text and behind line feeds. -/
theorem occurs_markPattern (name : String) (s : List Char) :
    (markPattern (markLetters name)).occurs s = (atMark name s || markBehindFeed name s) := by
  have hfrom : ∀ before left s, occursFrom (markPattern (markLetters name)) before left s =
      ((before.head?.all (· == '\n') && atMark name s) || markBehindFeed name s) := by
    intro before left s
    induction s generalizing before left with
    | nil =>
      rw [occursFrom, run_markPattern, markBehindFeed, Bool.or_false]
    | cons c s ih =>
      rw [occursFrom, run_markPattern, ih, markBehindFeed]
      rfl
  exact hfrom [] s.length s

end Source
end UmlDraw
