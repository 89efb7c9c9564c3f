/-
# The indentation that the lines of a note have in common

A note may be written over several lines, indented as the text around it.  Its text is made of these
lines without the blanks that all of them have in front.  A line of blanks counts for no indentation
and becomes empty; at the start and at the end such lines are left out.

The main statements are

* `Label.shortened_cutLine`: what becomes of a line whose indentation is cut;
* `Label.isLeast_commonIndent`: what is cut is the least indentation of a line with a text;
* `Label.dedent_of_flush`: lines that are flush already stay as they are;
* `Label.dedented_dedent`: what becomes of the lines of a note.
-/
import Mathlib.Data.List.Forall2
import Mathlib.Data.List.TakeWhile
import Mathlib.Order.Bounds.Basic
import UmlDraw.Proofs.Text.Lines
import UmlDraw.Source.Label

namespace UmlDraw

/-! ### The ends of a list -/

section Ends

variable {α β : Type*} {p : α → Bool} {q : β → Bool} {f : α → β} {before inner after rest : List α}

/-- A list without the elements of a class at its start and at its end. -/
def dropEnds (p : α → Bool) (xs : List α) : List α :=
  ((xs.dropWhile p).reverse.dropWhile p).reverse

/-- A list in three parts.  The one in the middle neither starts nor ends with an element of a
class, and the others consist of such elements. -/
structure IsMiddle (p : α → Bool) (before inner after : List α) : Prop where
  ends : ∀ x ∈ before ++ after, p x = true
  first : ∀ x ∈ inner.head?, p x = false
  last : ∀ x ∈ inner.getLast?, p x = false

lemma dropWhile_append_of_head (hbefore : ∀ x ∈ before, p x = true)
    (hhead : ∀ x ∈ rest.head?, p x = false) : (before ++ rest).dropWhile p = rest := by
  rw [List.dropWhile_append_of_pos hbefore]
  cases rest with
  | nil => rfl
  | cons x rest => exact List.dropWhile_cons_of_neg (by simp [hhead x rfl])

lemma exists_start (p : α → Bool) (xs : List α) : ∃ before rest, xs = before ++ rest ∧
    (∀ x ∈ before, p x = true) ∧ ∀ x ∈ rest.head?, p x = false := by
  induction xs with
  | nil => exact ⟨[], [], rfl, by simp, by simp⟩
  | cons x xs ih =>
    cases hx : p x with
    | false => exact ⟨[], x :: xs, rfl, by simp, by simpa using hx⟩
    | true =>
      obtain ⟨before, rest, rfl, hbefore, hhead⟩ := ih
      exact ⟨x :: before, rest, rfl, List.forall_mem_cons.2 ⟨hx, hbefore⟩, hhead⟩

lemma exists_isMiddle (p : α → Bool) (xs : List α) : ∃ before inner after,
    xs = before ++ inner ++ after ∧ IsMiddle p before inner after := by
  obtain ⟨before, rest, rfl, hbefore, hhead⟩ := exists_start p xs
  obtain ⟨after, inner, hrest, hafter, hlast⟩ := exists_start p rest.reverse
  obtain rfl : rest = inner.reverse ++ after.reverse := by
    rw [← List.reverse_append, ← hrest, List.reverse_reverse]
  refine ⟨before, inner.reverse, after.reverse, (List.append_assoc ..).symm, ?_, ?_, ?_⟩
  · intro x hx
    rcases List.mem_append.1 hx with hx | hx
    · exact hbefore x hx
    · exact hafter x (List.mem_reverse.1 hx)
  · intro x hx
    refine hhead x ?_
    rw [List.head?_append, hx, Option.some_or]
    exact rfl
  · rwa [List.getLast?_reverse]

lemma IsMiddle.dropEnds_eq (h : IsMiddle p before inner after) :
    dropEnds p (before ++ inner ++ after) = inner := by
  have hbefore : ∀ x ∈ before, p x = true := fun x hx => h.ends x (List.mem_append_left _ hx)
  have hafter : ∀ x ∈ after, p x = true := fun x hx => h.ends x (List.mem_append_right _ hx)
  cases inner with
  | nil =>
    have hall : (before ++ [] ++ after).dropWhile p = [] := by
      rw [List.append_nil]
      exact List.dropWhile_eq_nil_iff.2 h.ends
    rw [dropEnds, hall]
    rfl
  | cons x inner =>
    have hstart : (before ++ (x :: inner ++ after)).dropWhile p = x :: inner ++ after :=
      dropWhile_append_of_head hbefore h.first
    have hend : (after.reverse ++ (x :: inner).reverse).dropWhile p = (x :: inner).reverse := by
      refine dropWhile_append_of_head (fun y hy => hafter y (List.mem_reverse.1 hy)) ?_
      rw [List.head?_reverse]
      exact h.last
    rw [dropEnds, List.append_assoc, hstart, List.reverse_append, hend, List.reverse_reverse]

lemma IsMiddle.map (h : IsMiddle p before inner after)
    (hf : ∀ x ∈ before ++ inner ++ after, q (f x) = p x) :
    IsMiddle q (before.map f) (inner.map f) (after.map f) := by
  have hinner : ∀ x ∈ inner, q (f x) = p x := fun x hx => hf x (by simp [hx])
  refine ⟨?_, ?_, ?_⟩
  · rw [← List.map_append, List.forall_mem_map]
    intro x hx
    rw [hf x (by simp only [List.mem_append] at hx ⊢; tauto), h.ends x hx]
  · intro y hy
    obtain ⟨x, hx, rfl⟩ := Option.mem_map.1 (List.head?_map ▸ hy)
    rw [hinner x (List.mem_of_mem_head? hx), h.first x hx]
  · intro y hy
    obtain ⟨x, hx, rfl⟩ := Option.mem_map.1 (List.getLast?_map ▸ hy)
    rw [hinner x (List.mem_of_mem_getLast? hx), h.last x hx]

end Ends

namespace Label

open Chars (isBlankText)

variable {lines before inner after : List (List Char)} {x l l' : List Char} {k : Nat}

/-! ### One line -/

/-- The line without some characters at its start, if it has a text. -/
def cutLine (k : Nat) (l : List Char) : List Char :=
  if isBlankText l then [] else l.drop k

/-- What becomes of a line whose indentation is cut. -/
inductive Shortened (k : Nat) : List Char → List Char → Prop
  /-- Nothing stays of a line of blanks. -/
  | blank {l : List Char} (h : isBlankText l = true) : Shortened k l []
  /-- A line with a text loses blanks in front of it, always the same number of them. -/
  | text {x l : List Char} (hx : ∀ c ∈ x, Letter.isBlank c = true) (hlength : x.length = k)
      (hl : isBlankText l = false) : Shortened k (x ++ l) l

lemma isBlankText_append (hx : ∀ c ∈ x, Letter.isBlank c = true) (l : List Char) :
    isBlankText (x ++ l) = isBlankText l := by
  rw [isBlankText, List.all_append, List.all_eq_true.2 hx, Bool.true_and, isBlankText]

lemma indent_append (hx : ∀ c ∈ x, Letter.isBlank c = true) (l : List Char) :
    indent (x ++ l) = x.length + indent l := by
  rw [indent, List.takeWhile_append_of_pos hx, List.length_append, indent]

lemma Shortened.isBlankText_eq (h : Shortened k l l') : isBlankText l' = isBlankText l := by
  cases h with
  | blank h => rw [h]; rfl
  | text hx _ _ => rw [isBlankText_append hx]

lemma Shortened.isEmpty_eq (h : Shortened k l l') : l'.isEmpty = isBlankText l := by
  cases h with
  | blank h => rw [h]; rfl
  | text hx _ hl =>
    rw [isBlankText_append hx, hl]
    cases l' with
    | nil => cases hl
    | cons c l' => rfl

/-- A line that loses all of its indentation starts with a character of its text. -/
lemma Shortened.exists_head (h : Shortened k l l') (htext : isBlankText l = false)
    (hk : indent l = k) : ∃ c ∈ l'.head?, Letter.isBlank c = false := by
  cases h with
  | blank h => rw [h] at htext; cases htext
  | text hx hlength hl =>
    cases l' with
    | nil => cases hl
    | cons c l' =>
      refine ⟨c, rfl, ?_⟩
      by_contra hc
      rw [indent_append hx, indent, List.takeWhile_cons_of_pos (by simpa using hc),
        List.length_cons] at hk
      omega

lemma Shortened.not_mem {c : Char} (h : Shortened k l l') (hc : c ∉ l) : c ∉ l' := by
  cases h with
  | blank _ => exact List.not_mem_nil
  | text _ _ _ => exact fun hmem => hc (List.mem_append_right _ hmem)

/-- What is cut from a line that is indented far enough consists of blanks. -/
lemma shortened_cutLine (h : isBlankText l = false → k ≤ indent l) :
    Shortened k l (cutLine k l) := by
  unfold cutLine
  cases hl : isBlankText l with
  | true => exact .blank hl
  | false =>
    have hk : k ≤ (l.takeWhile Letter.isBlank).length := h hl
    have htake : l.take k = (l.takeWhile Letter.isBlank).take k := by
      conv_lhs => rw [← List.takeWhile_append_dropWhile (p := Letter.isBlank) (l := l)]
      exact List.take_append_of_le_length hk
    have hblank : ∀ c ∈ l.take k, Letter.isBlank c = true := by
      intro c hc
      rw [htake] at hc
      exact List.mem_takeWhile_imp (List.mem_of_mem_take hc)
    have hlength : (l.take k).length = k := by
      rw [htake, List.length_take]
      omega
    have hrest : isBlankText (l.drop k) = false := by
      rwa [← List.take_append_drop k l, isBlankText_append hblank] at hl
    have htext := Shortened.text hblank hlength hrest
    rwa [List.take_append_drop] at htext

/-! ### The least indentation -/

/-- The number of characters that are cut from every line with a text. -/
def commonIndent (lines : List (List Char)) : Nat :=
  (smallest? ((lines.filter fun l => !isBlankText l).map indent)).getD 0

/-- The indentations of the lines with a text. -/
def textIndents (lines : List (List Char)) : Set Nat :=
  {n | ∃ l ∈ lines, isBlankText l = false ∧ indent l = n}

lemma isLeast_commonIndent (hl : l ∈ lines) (htext : isBlankText l = false) :
    IsLeast (textIndents lines) (commonIndent lines) := by
  set ns := (lines.filter fun l => !isBlankText l).map indent with hns
  have hmem (n : Nat) : n ∈ ns ↔ n ∈ textIndents lines := by
    simp [hns, textIndents, and_assoc]
  have hne : ns ≠ [] := List.ne_nil_of_mem ((hmem _).2 ⟨l, hl, htext, rfl⟩)
  obtain ⟨n, rest, hcons⟩ := List.exists_cons_of_ne_nil hne
  have hsome : ns.min? = some (commonIndent lines) := by
    rw [commonIndent, ← hns, hcons]
    rfl
  obtain ⟨hleast, hle⟩ := List.min?_eq_some_iff.1 hsome
  exact ⟨(hmem _).1 hleast, fun n hn => hle n ((hmem n).2 hn)⟩

lemma commonIndent_le (hl : l ∈ lines) (htext : isBlankText l = false) :
    commonIndent lines ≤ indent l :=
  (isLeast_commonIndent hl htext).2 ⟨l, hl, htext, rfl⟩

lemma shortened_commonIndent (hl : l ∈ lines) :
    Shortened (commonIndent lines) l (cutLine (commonIndent lines) l) :=
  shortened_cutLine (commonIndent_le hl)

/-! ### The lines of a note -/

/-- Lines as they stand in the text of a note. -/
structure Flush (lines : List (List Char)) : Prop where
  /-- The first line has a text. -/
  first : ∀ l ∈ lines.head?, isBlankText l = false
  /-- The last line has a text. -/
  last : ∀ l ∈ lines.getLast?, isBlankText l = false
  /-- Some line has no blank in front. -/
  column : ∃ l ∈ lines, ∃ c ∈ l.head?, Letter.isBlank c = false

lemma dedent_eq (lines : List (List Char)) : dedent lines =
    String.ofList (Chars.join ['\n']
      (dropEnds List.isEmpty (lines.map (cutLine (commonIndent lines))))) :=
  rfl

/-- The lines of a note are cut as they stand between the first and the last one with a text. -/
lemma dedent_of_isMiddle (hlines : lines = before ++ inner ++ after)
    (h : IsMiddle isBlankText before inner after) : dedent lines =
      String.ofList (Chars.join ['\n'] (inner.map (cutLine (commonIndent lines)))) := by
  have hmiddle : IsMiddle List.isEmpty _ (inner.map (cutLine (commonIndent lines))) _ :=
    h.map fun l hl => (shortened_commonIndent (hlines ▸ hl)).isEmpty_eq
  have hmap : lines.map (cutLine (commonIndent lines)) =
      before.map (cutLine (commonIndent lines)) ++ inner.map (cutLine (commonIndent lines)) ++
        after.map (cutLine (commonIndent lines)) := by
    rw [← List.map_append, ← List.map_append, ← hlines]
  rw [dedent_eq, hmap, hmiddle.dropEnds_eq]

lemma flush_map_cutLine (hlines : lines = before ++ inner ++ after)
    (h : IsMiddle isBlankText before inner after) (hne : inner ≠ []) :
    Flush (inner.map (cutLine (commonIndent lines))) := by
  have hmiddle : IsMiddle isBlankText _ (inner.map (cutLine (commonIndent lines))) _ :=
    h.map fun l hl => (shortened_commonIndent (hlines ▸ hl)).isBlankText_eq
  obtain ⟨first, rest, hinner⟩ := List.exists_cons_of_ne_nil hne
  have hfirst : first ∈ lines := by simp [hlines, hinner]
  -- the indentation that is cut is that of some line
  obtain ⟨⟨l, hl, htext, hindent⟩, -⟩ :=
    isLeast_commonIndent hfirst (h.first first (by rw [hinner]; rfl))
  have hmem : l ∈ inner := by
    by_contra hout
    have hblank := h.ends l (by rw [hlines] at hl; simp only [List.mem_append] at hl ⊢; tauto)
    rw [htext] at hblank
    cases hblank
  exact ⟨hmiddle.first, hmiddle.last, _, List.mem_map_of_mem hmem,
    (shortened_commonIndent hl).exists_head htext hindent⟩

/-- Nothing is cut from lines that are flush and whose lines of blanks are empty. -/
lemma dedent_of_flush (h : Flush lines) (hempty : ∀ l ∈ lines, l.isEmpty = isBlankText l) :
    dedent lines = String.ofList (Chars.join ['\n'] lines) := by
  have hzero : commonIndent lines = 0 := by
    obtain ⟨l, hl, c, hc, hcolumn⟩ := h.column
    cases l with
    | nil => cases hc
    | cons d l =>
      obtain rfl : d = c := by simpa using hc
      have := commonIndent_le hl (by simp [isBlankText, hcolumn])
      simpa [indent, hcolumn] using this
  have hcut : lines.map (cutLine 0) = lines := by
    refine (List.map_congr_left fun l hl => ?_).trans (List.map_id lines)
    cases htext : isBlankText l with
    | true =>
      obtain rfl : l = [] := List.isEmpty_iff.1 ((hempty l hl).trans htext)
      rfl
    | false => simp [cutLine, htext]
  have hlines : lines = [] ++ lines ++ [] := by simp
  have hmiddle : IsMiddle isBlankText [] lines [] := ⟨by simp, h.first, h.last⟩
  rw [dedent_of_isMiddle hlines hmiddle, hzero, hcut]

/-- The lines of a text. -/
def textLines (text : String) : List (List Char) :=
  Chars.split '\n' text.toList

/-- A text is made of some lines without the indentation that they have in common.  The lines
between the first one with a text and the last one are all there. -/
def Dedented (lines : List (List Char)) (text : String) : Prop :=
  ∃ k before inner after, lines = before ++ inner ++ after ∧
    (∀ l ∈ before ++ after, isBlankText l = true) ∧
    (inner = [] ∧ text = "" ∨ List.Forall₂ (Shortened k) inner (textLines text))

/-- The text of a note has all its lines with a text, each without the same number of blanks in
front.  It is empty or has such a line first and last and one in the first column, and it is the
text of a note of these lines. -/
theorem dedented_dedent (h : ∀ l ∈ lines, '\n' ∉ l) :
    Dedented lines (dedent lines) ∧ (dedent lines = "" ∨ Flush (textLines (dedent lines))) ∧
    dedent (textLines (dedent lines)) = dedent lines := by
  obtain ⟨before, inner, after, hlines, hmiddle⟩ := exists_isMiddle isBlankText lines
  have hdedent := dedent_of_isMiddle hlines hmiddle
  by_cases hne : inner = []
  · obtain rfl := hne
    have hempty : dedent lines = "" := hdedent
    rw [hempty]
    exact ⟨⟨0, before, [], after, hlines, hmiddle.ends, .inl ⟨rfl, rfl⟩⟩, .inl rfl, rfl⟩
  · have hmem {l : List Char} (hl : l ∈ inner) : l ∈ lines := by simp [hlines, hl]
    have hflush := flush_map_cutLine hlines hmiddle hne
    have hsplit : textLines (dedent lines) = inner.map (cutLine (commonIndent lines)) := by
      rw [textLines, hdedent, String.toList_ofList]
      refine Chars.split_join (by simpa using hne) (List.forall_mem_map.2 fun l hl => ?_)
      exact (shortened_commonIndent (hmem hl)).not_mem (h l (hmem hl))
    have hshort : List.Forall₂ (Shortened (commonIndent lines)) inner
        (inner.map (cutLine (commonIndent lines))) :=
      List.forall₂_map_right_iff.2 (List.forall₂_same.2 fun l hl =>
        shortened_commonIndent (hmem hl))
    have hempty : ∀ l ∈ inner.map (cutLine (commonIndent lines)), l.isEmpty = isBlankText l :=
      List.forall_mem_map.2 fun l hl => by
        have hl := shortened_commonIndent (hmem hl)
        rw [hl.isEmpty_eq, hl.isBlankText_eq]
    refine ⟨⟨commonIndent lines, before, inner, after, hlines, hmiddle.ends, .inr ?_⟩, .inr ?_, ?_⟩
    · rwa [hsplit]
    · rwa [hsplit]
    · rw [hsplit, dedent_of_flush hflush hempty, ← hdedent]

/-- Blanks of several kinds in front of two lines, with lines of blanks around and between them. -/
theorem dedented_dedent_mixed :
    let lines := ["\u00a0".toList, "\t\u3000a b".toList, " ".toList, " \u2003\u2003c".toList, []]
    (∀ l ∈ lines, '\n' ∉ l) ∧ dedent lines = "a b\n\n\u2003c" ∧
    (Dedented lines (dedent lines) ∧ (dedent lines = "" ∨ Flush (textLines (dedent lines))) ∧
      dedent (textLines (dedent lines)) = dedent lines) := by
  intro lines
  have h : ∀ l ∈ lines, '\n' ∉ l := by decide
  exact ⟨h, by decide, dedented_dedent h⟩

end Label
end UmlDraw
