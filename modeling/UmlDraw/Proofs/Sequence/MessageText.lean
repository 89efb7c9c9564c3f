/-
# Lines of messages

A message is written as a participant, an arrow and another participant, with further targets, a
shortcut for an activation, a color and a label behind them.  Each part is found again when the line
is read, since each of them ends where the next one begins.  There is one place where the parts
could be cut in two ways: an end mark of an arrow is a letter, so right beside a plain name it would
belong to the name.

The main statements are

* `Sequence.Line.takes_arrow_operand`: an arrow and the participant behind it;
* `Sequence.MessageEnd.takes_messageEnd`: what stands behind the participants;
* `Sequence.MessageText.whole_chars`: what a line of a message is read as.
-/
import Mathlib.Data.List.DropRight
import UmlDraw.Proofs.Sequence.Operand
import UmlDraw.Proofs.Sequence.WrittenArrow

namespace UmlDraw
namespace Sequence

open Scan

/-! ### The arrow in a line -/

namespace Line

/-- The part of an arrow before its end mark, as scans read it. -/
def arrowBody : Scan Unit := do
  let _ ← Scan.optional startMark
  let _ ← Scan.optional (Scan.anyOf (["<<", "<", "//", "/", "\\\\", "\\"].map Scan.text))
  Scan.skip1 (· == '-')
  let _ ← Scan.optional Arrow.modifier
  Scan.skip (· == '-')
  let _ ← Scan.optional (Scan.anyOf ([">>", ">", "//", "/", "\\\\", "\\"].map Scan.text))
  pure ()

/-- An arrow is read up to its end mark first. -/
lemma run_arrow {β : Type} (s : List Char) (next : String → List Char → Option β) :
    arrow.run s next = arrowBody.run s fun _ t => (Scan.optional endMark).run t fun _ u =>
      next (String.ofList (s.take (s.length - u.length))) u :=
  rfl

variable {s : List Char}

lemma exists_takes_startMark {m : Option Char} (hm : ∀ c ∈ m, c = 'o' ∨ c = 'x') {c : Char}
    (hc : c ∈ ['-', '<', '>', '/', '\\']) :
    ∃ r, (Scan.optional startMark).Takes (m.toList ++ c :: s) r (c :: s) := by
  cases m with
  | none =>
    refine ⟨none, Fails.optional ((fails_satisfy ?_).bind _)⟩
    intro d hd
    obtain rfl : c = d := Option.some.inj hd
    simp only [List.mem_cons, List.not_mem_nil, or_false] at hc
    rcases hc with rfl | rfl | rfl | rfl | rfl <;> rfl
  | some d =>
    refine ⟨some (), Takes.optional ((takes_satisfy ?_ _).bind (takes_ahead ?_))⟩
    · rcases hm d rfl with rfl | rfl
      · rfl
      · rfl
    · simp only [List.mem_cons, List.not_mem_nil, or_false] at hc
      rcases hc with rfl | rfl | rfl | rfl | rfl <;> rfl

/-- A dressing whose arrow head has a given character is read, if what follows does not go on with
it. -/
lemma exists_takes_dressing {a : Char} (double single : String)
    (hdouble : double.toList = [a, a]) (hsingle : single.toList = [a]) (ha : a ≠ '/' ∧ a ≠ '\\')
    {d : List Char}
    (hd : d ∈ [] :: [[a, a], ['/', '/'], ['\\', '\\'], [a], ['/'], ['\\']])
    (hs : ∀ c ∈ s.head?, c ≠ a ∧ c ≠ '/' ∧ c ≠ '\\') :
    ∃ r, (Scan.optional (Scan.anyOf ([double, single, "//", "/", "\\\\", "\\"].map Scan.text))).Takes
      (d ++ s) r s := by
  have hnone {c : Char} (hc : c = a ∨ c = '/' ∨ c = '\\') (t : List Char) :
      Chars.after? (c :: t) s = none := by
    cases s with
    | nil => rfl
    | cons e s =>
      obtain ⟨h1, h2, h3⟩ := hs e rfl
      refine if_neg ?_
      rcases hc with rfl | rfl | rfl
      · exact h1.symm
      · exact h2.symm
      · exact h3.symm
  -- the dressing is the first one of the list that the text starts with
  have hfirst {w : String} (n : Nat) (hn : [double, single, "//", "/", "\\\\", "\\"][n]? = some w)
      (hw : w.toList = d) (hbefore : ∀ v ∈ [double, single, "//", "/", "\\\\", "\\"].take n,
        Chars.after? v.toList (d ++ s) = none) :
      ∃ r, (Scan.optional (Scan.anyOf ([double, single, "//", "/", "\\\\", "\\"].map
        Scan.text))).Takes (d ++ s) r s :=
    ⟨_, (takes_anyOf_map n hn (fun v hv => fails_text (hbefore v hv))
      (takes_text (by rw [hw, Chars.after?_append]))).optional⟩
  simp only [List.mem_cons, List.not_mem_nil, or_false] at hd
  rcases hd with rfl | rfl | rfl | rfl | rfl | rfl | rfl
  · refine ⟨none, Fails.optional (fails_anyOf ?_)⟩
    simp only [List.map_cons, List.map_nil, List.forall_mem_cons]
    refine ⟨fails_text ?_, fails_text ?_, fails_text ?_, fails_text ?_, fails_text ?_,
      fails_text ?_, List.forall_mem_nil _⟩
    · rw [hdouble]
      exact hnone (.inl rfl) _
    · rw [hsingle]
      exact hnone (.inl rfl) _
    · exact hnone (.inr (.inl rfl)) ['/']
    · exact hnone (.inr (.inl rfl)) []
    · exact hnone (.inr (.inr rfl)) ['\\']
    · exact hnone (.inr (.inr rfl)) []
  · exact hfirst 0 rfl hdouble (List.forall_mem_nil _)
  · refine hfirst 2 rfl rfl ?_
    simp [hdouble, hsingle, Chars.after?, ha]
  · refine hfirst 4 rfl rfl ?_
    simp [hdouble, hsingle, Chars.after?, ha]
  · refine hfirst 1 rfl hsingle ?_
    simp [hdouble, Chars.after?, hnone]
  · refine hfirst 3 rfl rfl ?_
    simp [hdouble, hsingle, Chars.after?, ha, hnone]
  · refine hfirst 5 rfl rfl ?_
    simp [hdouble, hsingle, Chars.after?, ha, hnone]

/-- The dashes are read, with the modifier beside or among them. -/
lemma takes_dashes (a : WrittenArrow) (ha : 0 < a.before)
    (hs : ∀ c ∈ s.head?, c ≠ '-' ∧ c ≠ '[') {γ : Type} {q : Scan γ} {g : γ} {t : List Char}
    (hq : q.Takes s g t) :
    (do
      Scan.skip1 (· == '-')
      let _ ← Scan.optional Arrow.modifier
      Scan.skip (· == '-')
      q : Scan γ).Takes
      (List.replicate a.before '-' ++ (a.bracketed ++ (List.replicate a.after '-' ++ s))) g t := by
  have hdashes (n : Nat) : ∀ c ∈ List.replicate n '-', (c == '-') = true := by
    intro c hc
    rw [List.eq_of_mem_replicate hc]
    rfl
  have hpos : List.replicate a.before '-' ≠ [] := by
    rw [ne_eq, List.replicate_eq_nil_iff]
    omega
  have hstop : ∀ c ∈ s.head?, (c == '-') = false := fun c hc => beq_false_of_ne (hs c hc).1
  unfold WrittenArrow.bracketed
  cases hmodifier : a.modifier with
  | none =>
    -- without a modifier all dashes are read at once
    have hall : ∀ c ∈ List.replicate a.before '-' ++ List.replicate a.after '-', (c == '-') = true :=
      List.forall_mem_append.2 ⟨hdashes _, hdashes _⟩
    rw [Option.map_none, Option.getD_none, List.nil_append, ← List.append_assoc]
    exact (takes_skip1 (List.append_ne_nil_of_left_ne_nil hpos _) hall hstop).bind
      ((Fails.optional (WrittenArrow.fails_modifier fun c hc => (hs c hc).2)).bind
        ((takes_skip (x := []) (List.forall_mem_nil _) hstop).bind hq))
  | some inner =>
    have hbracket : ∀ c ∈ ('[' :: (inner ++ ']' :: (List.replicate a.after '-' ++ s))).head?,
        (c == '-') = false := by
      intro c hc
      obtain rfl : '[' = c := Option.some.inj hc
      rfl
    rw [Option.map_some, Option.getD_some, List.cons_append, List.append_assoc,
      List.singleton_append]
    exact (takes_skip1 hpos (hdashes _) hbracket).bind
      ((WrittenArrow.takes_modifier (a.modifier_closed inner hmodifier) _).optional.bind
        ((takes_skip (hdashes _) hstop).bind hq))

/-- The characters that may follow an arrow. -/
lemma apart_of_operand {c : Char} (h : c = '"' ∨ Letter.isBlank c = true ∨ isNameChar c = true) :
    c ≠ '-' ∧ c ≠ '[' ∧ c ≠ '>' ∧ c ≠ '/' ∧ c ≠ '\\' := by
  rcases h with rfl | hblank | hname
  · decide
  · have hne {d : Char} (hd : Letter.isBlank d = false) : c ≠ d := by
      rintro rfl
      rw [hd] at hblank
      cases hblank
    exact ⟨hne rfl, hne rfl, hne rfl, hne rfl, hne rfl⟩
  · have hne {d : Char} := ne_of_isNameChar (d := d) hname
    exact ⟨hne (by decide), hne (by decide), hne (by decide), hne (by decide), hne (by decide)⟩

/-- An arrow begins with a dash or a dressing behind its start mark. -/
lemma exists_head_left {l : List Char} (hl : l ∈ [] :: Arrow.leftDressings) {n : Nat} (hn : 0 < n)
    (s : List Char) : ∃ c t, l ++ (List.replicate n '-' ++ s) = c :: t ∧
      c ∈ ['-', '<', '>', '/', '\\'] := by
  obtain ⟨n, rfl⟩ := Nat.exists_eq_succ_of_ne_zero (Nat.ne_of_gt hn)
  cases l with
  | nil => exact ⟨'-', List.replicate n '-' ++ s, rfl, by decide⟩
  | cons c l =>
    refine ⟨c, l ++ (List.replicate (n + 1) '-' ++ s), rfl, ?_⟩
    simp only [Arrow.leftDressings, List.mem_cons, List.not_mem_nil, or_false, List.cons.injEq,
      reduceCtorEq, false_or] at hl
    rcases hl with ⟨rfl, -⟩ | ⟨rfl, -⟩ | ⟨rfl, -⟩ | ⟨rfl, -⟩ | ⟨rfl, -⟩ | ⟨rfl, -⟩ <;> decide

lemma head_right {r : List Char} (hr : r ∈ [] :: Arrow.rightDressings)
    (hs : ∀ c ∈ s.head?, c ≠ '-' ∧ c ≠ '[') : ∀ c ∈ (r ++ s).head?, c ≠ '-' ∧ c ≠ '[' := by
  cases r with
  | nil => exact hs
  | cons d r =>
    intro c hc
    obtain rfl : d = c := Option.some.inj hc
    simp only [Arrow.rightDressings, List.mem_cons, List.not_mem_nil, or_false, List.cons.injEq,
      reduceCtorEq, false_or] at hr
    rcases hr with ⟨rfl, -⟩ | ⟨rfl, -⟩ | ⟨rfl, -⟩ | ⟨rfl, -⟩ | ⟨rfl, -⟩ | ⟨rfl, -⟩ <;> decide

/-- An arrow is read up to its end mark. -/
lemma takes_arrowBody (a : WrittenArrow) (ha : 0 < a.before)
    (hs : ∀ c ∈ s.head?, c = '"' ∨ Letter.isBlank c = true ∨ isNameChar c = true) :
    arrowBody.Takes (a.chars ++ s) () (a.endMark.toList ++ s) := by
  have hend : ∀ c ∈ (a.endMark.toList ++ s).head?,
      c ≠ '-' ∧ c ≠ '[' ∧ c ≠ '>' ∧ c ≠ '/' ∧ c ≠ '\\' := by
    cases hmark : a.endMark with
    | none => exact fun c hc => apart_of_operand (hs c hc)
    | some d =>
      intro c hc
      obtain rfl : d = c := Option.some.inj hc
      rcases a.endMark_mem d hmark with rfl | rfl <;> decide
  have hdash : ∀ c ∈ (a.right ++ (a.endMark.toList ++ s)).head?, c ≠ '-' ∧ c ≠ '[' :=
    head_right a.right_mem fun c hc => ⟨(hend c hc).1, (hend c hc).2.1⟩
  obtain ⟨c, t, hhead, hc⟩ := exists_head_left a.left_mem ha
    (a.bracketed ++ (List.replicate a.after '-' ++ (a.right ++ (a.endMark.toList ++ s))))
  obtain ⟨rstart, hstart⟩ := exists_takes_startMark (s := t) a.startMark_mem hc
  rw [← hhead] at hstart
  obtain ⟨rleft, hleft⟩ := exists_takes_dressing (a := '<') "<<" "<" rfl rfl
    (by decide) a.left_mem (s := List.replicate a.before '-' ++ (a.bracketed ++
      (List.replicate a.after '-' ++ (a.right ++ (a.endMark.toList ++ s))))) (by
      obtain ⟨n, hn⟩ := Nat.exists_eq_succ_of_ne_zero (Nat.ne_of_gt ha)
      rw [hn]
      intro c hc
      obtain rfl : '-' = c := Option.some.inj hc
      decide)
  obtain ⟨rright, hright⟩ := exists_takes_dressing (a := '>') ">>" ">" rfl rfl
    (by decide) a.right_mem fun c hc => (hend c hc).2.2
  have hchars : a.chars ++ s = a.startMark.toList ++ (a.left ++ (List.replicate a.before '-' ++
      (a.bracketed ++ (List.replicate a.after '-' ++ (a.right ++ (a.endMark.toList ++ s)))))) := by
    simp only [WrittenArrow.chars, WrittenArrow.front, WrittenArrow.back, List.append_assoc]
  rw [hchars]
  exact hstart.bind (hleft.bind (takes_dashes a ha hdash (hright.bind (takes_pure () _))))

/-- An end mark has no reading if what follows fails behind it. -/
lemma run_endMark_eq_none {β : Type} (next : Unit → List Char → Option β)
    (h : ∀ c t, s = c :: t → c = 'o' ∨ c = 'x' → (∀ d ∈ t.head?, isNameChar d = false) →
      next () t = none) : endMark.run s next = none := by
  cases s with
  | nil => rfl
  | cons c t =>
    unfold endMark
    rw [run_bind]
    by_cases hc : (c == 'o' || c == 'x') = true
    · refine (if_pos hc).trans ?_
      rw [Bool.or_eq_true, beq_iff_eq, beq_iff_eq] at hc
      cases t with
      | nil => exact h c [] rfl hc nofun
      | cons d t =>
        cases hd : isNameChar d with
        | true => exact if_neg (by simp [hd])
        | false =>
          refine (if_pos (by simp [hd])).trans (h c (d :: t) rfl hc ?_)
          exact fun e he => Option.some.inj he ▸ hd
    · exact if_neg hc

/-- An end mark is read if no name goes on with it. -/
lemma takes_endMark {d : Char} (hd : d = 'o' ∨ d = 'x')
    (hs : ∀ c ∈ s.head?, isNameChar c = false) : endMark.Takes (d :: s) () s := by
  have hmark : (d == 'o' || d == 'x') = true := by
    rcases hd with rfl | rfl <;> rfl
  refine (takes_satisfy hmark _).bind (takes_ahead ?_)
  cases s with
  | nil => rfl
  | cons c s =>
    dsimp only
    rw [hs c rfl, Bool.not_false]

/-- A participant that begins with an end mark is called like it, if no name goes on behind the
mark. -/
lemma eq_of_endMark {gap t : List Char} (hgap : ∀ c ∈ gap, Letter.isBlank c = true) {o : Operand}
    {d : Char} (hd : d = 'o' ∨ d = 'x') (ht : ∀ c ∈ t.head?, isNameChar c = false)
    (h : gap ++ (o.chars ++ s) = d :: t) : t = s := by
  cases gap with
  | cons c gap =>
    obtain rfl : c = d := (List.cons.inj h).1
    have hblank := hgap c (List.mem_cons_self ..)
    rcases hd with rfl | rfl <;> cases hblank
  | nil =>
    cases o with
    | quoted name ne_nil closed =>
      obtain rfl : '"' = d := (List.cons.inj h).1
      rcases hd with hd | hd <;> cases hd
    | plain name ne_nil word =>
      obtain ⟨c, name, rfl⟩ := List.exists_cons_of_ne_nil ne_nil
      obtain rfl : name ++ s = t := (List.cons.inj h).2
      -- a longer name goes on behind the mark
      cases name with
      | nil => rfl
      | cons e name =>
        have he := ht e rfl
        rw [word e (List.mem_cons_of_mem _ (List.mem_cons_self ..))] at he
        cases he

/-- A participant that is called like an end mark is taken for one, but then what follows has to go
on behind the participant. -/
lemma run_endMark_operand {gap : List Char} (hgap : ∀ c ∈ gap, Letter.isBlank c = true)
    (o : Operand) {β : Type} (next : Unit → List Char → Option β) (hbehind : next () s = none) :
    endMark.run (gap ++ (o.chars ++ s)) next = none := by
  refine run_endMark_eq_none next ?_
  intro c t hct hc ht
  rwa [eq_of_endMark hgap hc ht hct]

/-- Behind an arrow its own end mark is read, if it has one.  If it has none and the participant
behind it is called like an end mark and stands close to the dashes, the name is taken for the mark
first, but then what follows fails. -/
lemma run_optional_endMark {m : Option Char} (hm : ∀ c ∈ m, c = 'o' ∨ c = 'x') {gap : List Char}
    (hgap : ∀ c ∈ gap, Letter.isBlank c = true) {o : Operand}
    (hmark : m ≠ none → gap = [] → o.isQuoted = true) {β : Type}
    {next : Option Unit → List Char → Option β} {b : β}
    (hfound : ∀ r, next r (gap ++ (o.chars ++ s)) = some b) (hbehind : ∀ r, next r s = none) :
    (Scan.optional endMark).run (m.toList ++ (gap ++ (o.chars ++ s))) next = some b := by
  cases m with
  | some d =>
    refine (takes_endMark (hm d rfl) ?_).optional next b (hfound _)
    intro c hc
    cases gap with
    | cons e gap =>
      exact Option.some.inj hc ▸ isNameChar_of_isBlank (hgap e (List.mem_cons_self ..))
    | nil =>
      cases o with
      | quoted name ne_nil closed =>
        obtain rfl : '"' = c := Option.some.inj hc
        rfl
      | plain name ne_nil word => exact absurd (hmark (Option.some_ne_none d) rfl) nofun
  | none =>
    have hfails : (some <$> endMark).run (gap ++ (o.chars ++ s)) next = none :=
      run_endMark_operand hgap o (fun _ t => next (some ()) t) (hbehind _)
    rw [Option.toList_none, List.nil_append]
    refine (run_either _ _ _ _).trans ?_
    rw [hfails, Option.none_or]
    exact hfound none

/-- An arrow is read with the participant behind it, if no other participant follows. -/
lemma takes_arrow_operand {a : WrittenArrow} (ha : 0 < a.before) {gap : List Char}
    (hgap : ∀ c ∈ gap, Letter.isBlank c = true) {o : Operand}
    (hmark : a.endMark ≠ none → gap = [] → o.isQuoted = true) (ho : o.Apart s)
    (hs : (do Scan.blanks; participant : Scan String).Fails s) {γ : Type}
    {f : String → String → Scan γ} {g : γ} {t : List Char} (hf : (f a.text o.code).Takes s g t) :
    (do
      let x ← arrow
      Scan.blanks
      let y ← participant
      f x y : Scan γ).Takes (a.chars ++ (gap ++ (o.chars ++ s))) g t := by
  intro β next b hb
  rw [run_bind, run_arrow]
  refine takes_arrowBody a ha (o.head_gap_chars hgap s) _ b
    (run_optional_endMark a.endMark_mem hgap hmark (fun _ => ?_) fun _ => hs _)
  have htake : (a.chars ++ (gap ++ (o.chars ++ s))).take ((a.chars ++ (gap ++ (o.chars ++ s))).length -
      (gap ++ (o.chars ++ s)).length) = a.chars := by
    simp
  rw [htake]
  exact (takes_skip hgap (o.not_isBlank_head_chars s)).bind
    ((o.takes_participant ho).bind hf) next b hb

end Line

/-- The name of a participant ends in front of an arrow, unless it runs into the start mark. -/
lemma Operand.apart_arrow {o : Operand} {gap : List Char}
    (hgap : ∀ c ∈ gap, Letter.isBlank c = true) {a : WrittenArrow} (ha : 0 < a.before)
    (hmark : a.startMark ≠ none → gap = [] → o.isQuoted = true) (s : List Char) :
    o.Apart (gap ++ (a.chars ++ s)) := by
  intro hquoted c hc
  cases gap with
  | cons d gap =>
    exact Line.isNameChar_of_isBlank (Option.some.inj hc ▸ hgap d (List.mem_cons_self ..))
  | nil =>
    have hnone : a.startMark = none := by
      by_contra hsome
      rw [hmark hsome rfl] at hquoted
      cases hquoted
    obtain ⟨d, t, hhead, hd⟩ := Line.exists_head_left a.left_mem ha
      (a.bracketed ++ (a.back ++ s))
    have hchars : a.chars ++ s = d :: t := by
      rw [← hhead, WrittenArrow.chars, WrittenArrow.front, hnone]
      simp only [Option.toList_none, List.nil_append, List.append_assoc]
    rw [List.nil_append, hchars] at hc
    have hall : ∀ c ∈ ['-', '<', '>', '/', '\\'], Line.isNameChar c = false := by decide
    exact Option.some.inj hc ▸ hall d hd

/-! ### What stands behind the participants -/

/-- A color as it is written. -/
structure WrittenColor where
  /-- The word behind the number sign. -/
  word : List Char
  /-- A second word, with the character before it. -/
  second : Option (Char × List Char)
  word_ne_nil : word ≠ []
  word_isWord : ∀ c ∈ word, Letter.isWord c = true
  second_mem : ∀ x ∈ second,
    x.1 ∈ ['-', '\\', '|', '/'] ∧ x.2 ≠ [] ∧ ∀ c ∈ x.2, Letter.isWord c = true

namespace WrittenColor

/-- The characters of the color. -/
def chars (c : WrittenColor) : List Char :=
  '#' :: (c.word ++ (c.second.map fun x => x.1 :: x.2).getD [])

/-- The text of the color. -/
def text (c : WrittenColor) : String :=
  String.ofList c.chars

lemma takes_color (w : WrittenColor) {s : List Char}
    (hs : ∀ c ∈ s.head?, Letter.isBlank c = true ∨ c = ':') :
    Token.color.Takes (w.chars ++ s) w.text s := by
  have hword : ∀ c ∈ s.head?, Letter.isWord c = false := by
    intro c hc
    rcases hs c hc with h | rfl
    · exact Letter.isWord_of_isBlank h
    · rfl
  have hplain {t : List Char} (ht : ∀ c ∈ t.head?, Letter.isWord c = false) :
      Token.plainColor.Takes ('#' :: (w.word ++ t)) (String.ofList ('#' :: w.word)) t := by
    have htakes := (takes_char '#' (w.word ++ t)).bind (f := fun _ => many1 Letter.isWord)
      (takes_many1 w.word_ne_nil w.word_isWord ht)
    exact Takes.captured (x := '#' :: w.word) htakes
  refine Takes.captured (x := w.chars) (a := ()) ?_
  unfold chars
  cases hsecond : w.second with
  | none =>
    rw [Option.map_none, Option.getD_none, List.append_nil, List.cons_append]
    refine (hplain hword).bind ((Fails.optional ((fails_satisfy ?_).bind _)).bind (takes_pure () s))
    intro c hc
    cases hjoint : c == '-' || c == '\\' || c == '|' || c == '/' with
    | false => rfl
    | true =>
      simp only [Bool.or_eq_true, beq_iff_eq] at hjoint
      rcases hs c hc with h | h <;> rcases hjoint with ((rfl | rfl) | rfl) | rfl <;> cases h
  | some x =>
    obtain ⟨hsep, hne, hall⟩ := w.second_mem x hsecond
    rw [Option.map_some, Option.getD_some, List.cons_append, List.append_assoc, List.cons_append]
    have hjoint : ∀ c ∈ ['-', '\\', '|', '/'],
        (c == '-' || c == '\\' || c == '|' || c == '/') = true ∧ Letter.isWord c = false := by
      decide
    refine (hplain ?_).bind ((Takes.optional ((takes_satisfy (hjoint _ hsep).1 _).bind
      (takes_many1 hne hall hword))).bind (takes_pure () s))
    intro c hc
    obtain rfl : x.1 = c := Option.some.inj hc
    exact (hjoint _ hsep).2

end WrittenColor

lemma Line.fails_color {s : List Char} (h : ∀ c ∈ s.head?, c ≠ '#') : Token.color.Fails s :=
  Fails.captured (Fails.bind (Fails.captured ((fails_char h).bind _)) _)

/-- A label at the end of a line. -/
structure LabelEnd where
  /-- The label, without the colon before it. -/
  label : Option (List Char)
  label_inLine : ∀ l ∈ label, '\n' ∉ Chars.trimLeft l

namespace LabelEnd

/-- The characters of the label. -/
def labelChars (e : LabelEnd) : List Char :=
  (e.label.map fun l => ':' :: l).getD []

/-- The text of the label. -/
def labelText (e : LabelEnd) : String :=
  String.ofList (Chars.trim (e.label.getD []))

variable {e : LabelEnd}

lemma labelChars_none (h : e.label = none) : e.labelChars = [] := by
  rw [labelChars, h]
  rfl

lemma labelChars_some {l : List Char} (h : e.label = some l) : e.labelChars = ':' :: l := by
  rw [labelChars, h]
  rfl

lemma head_labelChars (e : LabelEnd) : ∀ c ∈ e.labelChars.head?, c = ':' := by
  cases h : e.label with
  | none =>
    rw [labelChars_none h]
    exact nofun
  | some l =>
    rw [labelChars_some h]
    exact fun c hc => (Option.some.inj hc).symm

/-- The label is read without the blanks in front. -/
lemma takes_inLine {l : List Char} (h : e.label = some l) :
    (many inLine).Takes (Chars.trimLeft l) (String.ofList (Chars.trimLeft l)) [] := by
  have hinLine : ∀ c ∈ Chars.trimLeft l, inLine c = true :=
    fun c hc => bne_iff_ne.2 fun hbreak => e.label_inLine l h (hbreak ▸ hc)
  have hrest := takes_many (s := []) hinLine nofun
  rwa [List.append_nil] at hrest

end LabelEnd

/-- A color and a label at the end of a line. -/
structure LineEnd extends LabelEnd where
  /-- A color, with the blanks behind it. -/
  color : Option (WrittenColor × List Char)
  color_blank : ∀ x ∈ color, ∀ c ∈ x.2, Letter.isBlank c = true

namespace LineEnd

/-- The characters of the color, with the blanks behind it. -/
def colorChars (e : LineEnd) : List Char :=
  (e.color.map fun x => x.1.chars ++ x.2).getD []

variable (e : LineEnd)

lemma head_colorChars : ∀ c ∈ (e.colorChars ++ e.labelChars).head?, c = '#' ∨ c = ':' := by
  unfold colorChars
  cases e.color with
  | none => exact fun c hc => .inr (e.head_labelChars c hc)
  | some x => exact fun c hc => .inl (Option.some.inj hc).symm

/-- The label is read up to the end of the line. -/
lemma exists_takes_labelAtEnd {gap : List Char} (hgap : ∀ c ∈ gap, Letter.isBlank c = true) :
    ∃ l, Line.labelAtEnd.Takes (gap ++ e.labelChars) l [] ∧ Text.trim (l.getD "") = e.labelText := by
  have hhead : ∀ c ∈ e.labelChars.head?, Letter.isBlank c = false :=
    fun c hc => e.head_labelChars c hc ▸ rfl
  cases hlabel : e.label with
  | none =>
    have htext : e.labelText = "" := by
      rw [LabelEnd.labelText, hlabel]
      rfl
    rw [LabelEnd.labelChars_none hlabel] at hhead ⊢
    exact ⟨none, (takes_skip hgap hhead).bind
      ((Fails.optional ((fails_char (s := []) nofun).bind _)).bind
        ((takes_ahead rfl).bind (takes_pure none []))), htext.symm⟩
  | some l =>
    have htext : e.labelText = String.ofList (Chars.trim l) := by
      rw [LabelEnd.labelText, hlabel]
      rfl
    rw [LabelEnd.labelChars_some hlabel] at hhead ⊢
    refine ⟨some (String.ofList (Chars.trimLeft l)), (takes_skip hgap hhead).bind
      ((Takes.optional ((takes_char ':' l).bind ((takes_skip_dropWhile _ l).bind
        (LabelEnd.takes_inLine hlabel)))).bind ((takes_ahead rfl).bind (takes_pure _ []))), ?_⟩
    -- the blanks behind the colon are passed over before the label is trimmed
    rw [htext, Option.getD_some, Text.trim, String.toList_ofList, Chars.trim, Chars.trimLeft,
      Chars.trimLeft, List.dropWhile_idempotent]
    rfl

/-- The color is read, up to blanks in front of the label. -/
lemma exists_takes_color : ∃ gap, (∀ c ∈ gap, Letter.isBlank c = true) ∧
    (Scan.optional Token.color).Takes (e.colorChars ++ e.labelChars)
      (e.color.map fun x => x.1.text) (gap ++ e.labelChars) := by
  unfold colorChars
  cases hcolor : e.color with
  | none =>
    refine ⟨[], List.forall_mem_nil _, (Line.fails_color ?_).optional⟩
    rintro c hc rfl
    cases e.head_labelChars _ hc
  | some x =>
    have hgap := e.color_blank x hcolor
    refine ⟨x.2, hgap, ?_⟩
    rw [Option.map_some, Option.getD_some, Option.map_some, List.append_assoc]
    refine (x.1.takes_color ?_).optional
    cases hx : x.2 with
    | nil => exact fun c hc => .inr (e.head_labelChars c hc)
    | cons d gap =>
      intro c hc
      obtain rfl : d = c := Option.some.inj hc
      exact .inl (hgap d (hx ▸ List.mem_cons_self ..))

end LineEnd

/-- What stands behind the participants of a message. -/
structure MessageEnd extends LineEnd where
  /-- The blanks in front. -/
  gap : List Char
  /-- A shortcut for an activation, with the blanks behind it. -/
  activation : Option (String × List Char)
  gap_blank : ∀ c ∈ gap, Letter.isBlank c = true
  activation_mem : ∀ x ∈ activation,
    x.1 ∈ ["--++", "++--", "++", "--", "**", "!!"] ∧ ∀ c ∈ x.2, Letter.isBlank c = true

namespace MessageEnd

/-- The characters of the activation, with the blanks behind it. -/
def activationChars (e : MessageEnd) : List Char :=
  (e.activation.map fun x => x.1.toList ++ x.2).getD []

/-- The characters behind the blanks in front. -/
def tail (e : MessageEnd) : List Char :=
  e.activationChars ++ (e.colorChars ++ e.labelChars)

/-- The characters of the end of the line. -/
def chars (e : MessageEnd) : List Char :=
  e.gap ++ e.tail

variable (e : MessageEnd)

/-- What stands behind the blanks begins with a character that is part of no participant. -/
lemma head_tail : ∀ c ∈ e.tail.head?, c ∈ ['+', '-', '*', '!', '#', ':'] := by
  unfold tail activationChars
  cases hactivation : e.activation with
  | none =>
    intro c hc
    rcases e.head_colorChars c hc with rfl | rfl <;> decide
  | some x =>
    have hwords : ∀ w ∈ ["--++", "++--", "++", "--", "**", "!!"],
        w.toList.head?.any (· ∈ ['+', '-', '*', '!', '#', ':']) = true := by
      decide
    obtain ⟨c, hc, hmem⟩ :=
      (Option.any_eq_true _ _).1 (hwords x.1 (e.activation_mem x hactivation).1)
    obtain ⟨t, ht⟩ := List.head?_eq_some_iff.1 hc
    rw [Option.map_some, Option.getD_some, ht]
    intro d hd
    obtain rfl : c = d := Option.some.inj hd
    exact of_decide_eq_true hmem

/-- A shortcut for an activation is read as a whole. -/
lemma takes_activation {w : String} (hw : w ∈ ["--++", "++--", "++", "--", "**", "!!"])
    {s : List Char} (hs : ∀ c ∈ s.head?, c ≠ '+' ∧ c ≠ '-') :
    Line.activation.Takes (w.toList ++ s) w s := by
  have hnone {c : Char} (hc : c = '+' ∨ c = '-') (t : List Char) :
      Chars.after? (c :: t) s = none := by
    cases s with
    | nil => rfl
    | cons e s =>
      obtain ⟨h1, h2⟩ := hs e rfl
      rcases hc with rfl | rfl
      · exact if_neg h1.symm
      · exact if_neg h2.symm
  -- the shortcut is the first one of the list that the text starts with
  have hfirst (n : Nat) (hn : ["--++", "++--", "++", "--", "**", "!!"][n]? = some w)
      (hbefore : ∀ v ∈ ["--++", "++--", "++", "--", "**", "!!"].take n,
        Chars.after? v.toList (w.toList ++ s) = none) :
      Line.activation.Takes (w.toList ++ s) w s :=
    takes_anyOf_map n hn (fun v hv => (fails_text (hbefore v hv)).bind _)
      (takes_literal (Chars.after?_append _ _))
  simp only [List.mem_cons, List.not_mem_nil, or_false] at hw
  rcases hw with rfl | rfl | rfl | rfl | rfl | rfl
  · exact hfirst 0 rfl (List.forall_mem_nil _)
  · exact hfirst 1 rfl (by simp [Chars.after?])
  · exact hfirst 2 rfl (by simp [Chars.after?, hnone])
  · exact hfirst 3 rfl (by simp [Chars.after?, hnone])
  · exact hfirst 4 rfl (by simp [Chars.after?])
  · exact hfirst 5 rfl (by simp [Chars.after?])

lemma fails_activation {s : List Char} (hs : ∀ c ∈ s.head?, c = '#' ∨ c = ':') :
    Line.activation.Fails s := by
  have hnone {c : Char} (hc : c ≠ '#' ∧ c ≠ ':') (t : List Char) :
      Chars.after? (c :: t) s = none := by
    cases s with
    | nil => rfl
    | cons e s =>
      rcases hs e rfl with rfl | rfl
      · exact if_neg hc.1
      · exact if_neg hc.2
  refine fails_anyOf fun p hp => ?_
  obtain ⟨w, hw, rfl⟩ := List.mem_map.1 hp
  refine (fails_text ?_).bind _
  simp only [List.mem_cons, List.not_mem_nil, or_false] at hw
  rcases hw with rfl | rfl | rfl | rfl | rfl | rfl <;> exact hnone (by decide) _

/-- The shortcut for an activation is read, up to blanks in front of the color. -/
lemma exists_takes_activation : ∃ gap, (∀ c ∈ gap, Letter.isBlank c = true) ∧
    (Scan.optional Line.activation).Takes e.tail (e.activation.map Prod.fst)
      (gap ++ (e.colorChars ++ e.labelChars)) := by
  unfold tail activationChars
  cases hactivation : e.activation with
  | none => exact ⟨[], List.forall_mem_nil _, (fails_activation e.head_colorChars).optional⟩
  | some x =>
    obtain ⟨hmem, hgap⟩ := e.activation_mem x hactivation
    refine ⟨x.2, hgap, ?_⟩
    rw [Option.map_some, Option.getD_some, Option.map_some, List.append_assoc]
    refine (takes_activation hmem ?_).optional
    cases hx : x.2 with
    | nil =>
      intro c hc
      rcases e.head_colorChars c hc with rfl | rfl <;> decide
    | cons d gap =>
      intro c hc
      obtain rfl : d = c := Option.some.inj hc
      have hblank := hgap d (hx ▸ List.mem_cons_self ..)
      constructor
      · rintro rfl
        cases hblank
      · rintro rfl
        cases hblank

/-- The end of the line is read. -/
lemma takes_messageEnd : Line.messageEnd.Takes e.chars
    (e.activation.map Prod.fst, e.color.map fun x => x.1.text, e.labelText) [] := by
  obtain ⟨gap, hgap, hactivation⟩ := e.exists_takes_activation
  obtain ⟨gap', hgap', hcolor⟩ := e.exists_takes_color
  obtain ⟨l, hlabel, htext⟩ := e.exists_takes_labelAtEnd hgap'
  have hstop : ∀ c ∈ e.tail.head?, Letter.isBlank c = false := by
    intro c hc
    have hall : ∀ c ∈ ['+', '-', '*', '!', '#', ':'], Letter.isBlank c = false := by decide
    exact hall c (e.head_tail c hc)
  have hstop' : ∀ c ∈ (e.colorChars ++ e.labelChars).head?, Letter.isBlank c = false := by
    intro c hc
    rcases e.head_colorChars c hc with rfl | rfl <;> rfl
  rw [← htext]
  exact (takes_skip e.gap_blank hstop).bind (hactivation.bind ((takes_skip hgap hstop').bind
    (hcolor.bind (hlabel.bind (takes_pure _ [])))))

end MessageEnd

/-! ### The line -/

/-- A line of a message as it is written.  Where nothing stands between an arrow and a plain name,
the arrow has no end mark there, because the mark would belong to the name. -/
structure MessageText where
  /-- The blanks behind the mark of a parallel message, if there is the mark. -/
  parallel : Option (List Char)
  /-- The participant on the left. -/
  left : Operand
  /-- The blanks before the arrow. -/
  leftGap : List Char
  /-- The arrow. -/
  arrow : WrittenArrow
  /-- The blanks behind the arrow. -/
  rightGap : List Char
  /-- The participant on the right. -/
  right : Operand
  /-- Further targets. -/
  further : List Listed
  /-- What stands behind the participants. -/
  ending : MessageEnd
  parallel_blank : ∀ gap ∈ parallel, ∀ c ∈ gap, Letter.isBlank c = true
  leftGap_blank : ∀ c ∈ leftGap, Letter.isBlank c = true
  rightGap_blank : ∀ c ∈ rightGap, Letter.isBlank c = true
  before_pos : 0 < arrow.before
  left_apart : arrow.startMark ≠ none → leftGap = [] → left.isQuoted = true
  right_apart : arrow.endMark ≠ none → rightGap = [] → right.isQuoted = true

namespace MessageText

/-- The mark of a parallel message, with the blanks behind it. -/
def parallelChars (w : MessageText) : List Char :=
  (w.parallel.map fun gap => '&' :: gap).getD []

/-- The characters behind the participant on the right. -/
def behind (w : MessageText) : List Char :=
  Listed.all '&' w.further ++ w.ending.chars

/-- The characters of the line. -/
def chars (w : MessageText) : List Char :=
  w.parallelChars ++ (w.left.chars ++ (w.leftGap ++ (w.arrow.chars ++ (w.rightGap ++
    (w.right.chars ++ w.behind)))))

/-- What the line says. -/
def line (w : MessageText) : MessageLine where
  left := w.left.code
  right := w.right.code
  arrow := Arrow.read w.arrow.text
  isParallel := w.parallel.isSome
  multicast := w.further.map fun l => String.ofList (l.operand.name.map comma)
  activation := w.ending.activation.map Prod.fst
  color := w.ending.color.map fun x => x.1.text
  label := w.ending.labelText

variable (w : MessageText)

lemma exists_takes_parallel {s : List Char}
    (hs : ∀ c ∈ s.head?, c ≠ '&' ∧ Letter.isBlank c = false) :
    ∃ r : Option Unit, r.isSome = w.parallel.isSome ∧
      (Scan.optional Line.parallelMark).Takes (w.parallelChars ++ s) r s := by
  unfold parallelChars
  cases hparallel : w.parallel with
  | none => exact ⟨none, rfl, Fails.optional ((fails_char fun c hc => (hs c hc).1).bind _)⟩
  | some gap =>
    exact ⟨some (), rfl, Takes.optional ((takes_char '&' _).bind
      (takes_skip (w.parallel_blank gap hparallel) fun c hc => (hs c hc).2))⟩

/-- Behind the participant on the right stand blanks, and then nothing that a participant begins
with. -/
lemma exists_gap_behind : ∃ gap t, w.behind = gap ++ t ∧ (∀ c ∈ gap, Letter.isBlank c = true) ∧
    ∀ c ∈ t.head?, c ∈ ['&', '+', '-', '*', '!', '#', ':'] := by
  obtain ⟨gap, t, hbehind, hgap, ht⟩ :=
    Listed.exists_gap_all '&' w.ending.tail w.ending.gap_blank w.further
  refine ⟨gap, t, hbehind, hgap, fun c hc => ?_⟩
  rcases ht c hc with rfl | hc
  · exact List.mem_cons_self ..
  · exact List.mem_cons_of_mem _ (w.ending.head_tail c hc)

lemma ne_operand {c : Char} (hc : c ∈ ['&', '+', '-', '*', '!', '#', ':']) :
    c ≠ '"' ∧ Line.isNameChar c = false ∧ Letter.isBlank c = false := by
  revert c
  decide

/-- No participant follows the one on the right. -/
lemma fails_behind : (do Scan.blanks; Line.participant : Scan String).Fails w.behind := by
  obtain ⟨gap, t, hbehind, hgap, ht⟩ := w.exists_gap_behind
  rw [hbehind]
  refine fails_skip_bind hgap (fun c hc => (ne_operand (ht c hc)).2.2) ?_ fun d u hd =>
    Operand.fails_participant_blank hd u
  exact Operand.fails_participant fun c hc => ⟨(ne_operand (ht c hc)).1, (ne_operand (ht c hc)).2.1⟩

/-- The name of the participant on the right ends there. -/
lemma right_apart_behind : w.right.Apart w.behind := by
  obtain ⟨gap, t, hbehind, hgap, ht⟩ := w.exists_gap_behind
  intro _
  rw [hbehind]
  exact Line.not_isNameChar_gap hgap fun c hc => (ne_operand (ht c hc)).2.1

/-- What a line of a message is read as. -/
theorem whole_chars : Line.readMessage.whole w.chars = some (.message w.line) := by
  have htail : ∀ c ∈ w.ending.tail.head?, c ∈ ['&', '+', '-', '*', '!', '#', ':'] ∧ c ≠ '&' := by
    intro c hc
    have hall : ∀ c ∈ ['+', '-', '*', '!', '#', ':'],
        c ∈ ['&', '+', '-', '*', '!', '#', ':'] ∧ c ≠ '&' := by
      decide
    exact hall c (w.ending.head_tail c hc)
  have hname : ∀ c ∈ (w.ending.gap ++ w.ending.tail).head?, Line.isNameChar c = false :=
    Line.not_isNameChar_gap w.ending.gap_blank fun c hc => (ne_operand (htail c hc).1).2.1
  obtain ⟨r, hr, hparallel⟩ := w.exists_takes_parallel (w.left.ne_head_chars (w.leftGap ++
    (w.arrow.chars ++ (w.rightGap ++ (w.right.chars ++ w.behind)))))
  have hline : Line.readMessage.Takes w.chars (.message { w.line with
      isParallel := r.isSome, multicast := Line.participantsOf
        (String.ofList ((String.ofList (Listed.all '&' w.further)).toList.map comma)) }) [] := by
    refine hparallel.bind ((w.left.takes_participant
      (Operand.apart_arrow w.leftGap_blank w.before_pos w.left_apart _)).bind
      ((takes_skip w.leftGap_blank ?_).bind ?_))
    · exact fun c hc =>
        WrittenArrow.isBlank_of_isOutside (w.arrow.isOutside_head w.before_pos c hc)
    refine Line.takes_arrow_operand w.before_pos w.rightGap_blank w.right_apart w.right_apart_behind
      w.fails_behind ?_
    exact (Listed.takes_writtenTargets w.further w.ending.gap_blank
      (fun c hc => ⟨(ne_operand (htail c hc).1).2.2, (htail c hc).2⟩) hname).bind
        (w.ending.takes_messageEnd.bind (takes_pure _ []))
  rw [Listed.participantsOf_targets, hr] at hline
  exact hline.whole

end MessageText

end Sequence
end UmlDraw
