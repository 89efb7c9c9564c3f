/-
# Lines that reach a dialect unchanged

Before a dialect sees the lines of a text, blanks, comments and blocks that do not concern it are
removed.  A tidy line has nothing of that kind, so a text of tidy lines is read as these lines.

The main statements are

* `Source.lines_join`: a text of tidy lines;
* `Source.lines_prefix`: a text with more lines behind it;
* `Source.exists_rawLines`: a text is its lines with the breaks between them.
-/
import UmlDraw.Proofs.Text.Search
import UmlDraw.Source.Line

namespace UmlDraw

/-- A blank is no part of a word. -/
lemma Letter.isWord_of_isBlank {c : Char} (h : isBlank c = true) : isWord c = false := by
  have hblanks : ∀ n ∈ [9, 10, 11, 12, 13, 28, 29, 30, 31, 32, 0x85, 0xa0, 0x1680, 0x2000, 0x2001,
      0x2002, 0x2003, 0x2004, 0x2005, 0x2006, 0x2007, 0x2008, 0x2009, 0x200a, 0x2028, 0x2029,
      0x202f, 0x205f, 0x3000], isWord (Char.ofNat n) = false := by
    decide +kernel
  have hmem : c.toNat ∈ [9, 10, 11, 12, 13, 28, 29, 30, 31, 32, 0x85, 0xa0, 0x1680, 0x2000, 0x2001,
      0x2002, 0x2003, 0x2004, 0x2005, 0x2006, 0x2007, 0x2008, 0x2009, 0x200a, 0x2028, 0x2029,
      0x202f, 0x205f, 0x3000] := by
    simp only [isBlank, Bool.or_eq_true, Bool.and_eq_true, decide_eq_true_eq, beq_iff_eq] at h
    simp only [List.mem_cons, List.not_mem_nil, or_false]
    omega
  have hc := hblanks _ hmem
  rwa [Char.ofNat_toNat] at hc

namespace Chars

variable {s : List Char}

lemma trimLeft_of_head (h : ∀ c ∈ s.head?, Letter.isBlank c = false) : trimLeft s = s :=
  dropWhile_of_head h

lemma trimRight_of_getLast (h : ∀ c ∈ s.getLast?, Letter.isBlank c = false) : trimRight s = s := by
  have hreverse : trimLeft s.reverse = s.reverse := by
    refine trimLeft_of_head fun c hc => h c ?_
    rwa [List.head?_reverse] at hc
  unfold trimRight dropEndWhile
  unfold trimLeft at hreverse
  rw [hreverse, List.reverse_reverse]

lemma join_cons_cons (q : Char) (part next : List Char) (rest : List (List Char)) :
    join [q] (part :: next :: rest) = part ++ q :: join [q] (next :: rest) := by
  simp [join, List.intercalate]

lemma not_mem_join {q c : Char} (hc : c ≠ q) {parts : List (List Char)}
    (hparts : ∀ part ∈ parts, c ∉ part) : c ∉ join [q] parts := by
  induction parts with
  | nil => exact List.not_mem_nil
  | cons part rest ih =>
    obtain ⟨hpart, hrest⟩ := List.forall_mem_cons.1 hparts
    cases rest with
    | nil => simpa [join] using hpart
    | cons next rest =>
      rw [join_cons_cons, List.mem_append, List.mem_cons]
      rintro (h | h | h)
      · exact hpart h
      · exact hc h
      · exact ih hrest h

/-- Lines without line feeds are the parts between the line feeds that join them. -/
lemma split_join {q : Char} {parts : List (List Char)} (hne : parts ≠ [])
    (hparts : ∀ part ∈ parts, q ∉ part) : split q (join [q] parts) = parts := by
  induction parts with
  | nil => exact absurd rfl hne
  | cons part rest ih =>
    obtain ⟨hpart, hrest⟩ := List.forall_mem_cons.1 hparts
    cases rest with
    | nil =>
      have hjoin : join [q] [part] = part := by simp [join]
      rw [hjoin, split_of_not_mem hpart]
    | cons next rest =>
      rw [join_cons_cons, split_append hpart, ih (List.cons_ne_nil _ _) hrest]

/-- Parts that all end with the character that they are split at, the last one included. -/
lemma split_terminated {q : Char} {parts : List (List Char)} (hne : parts ≠ [])
    (hparts : ∀ part ∈ parts, q ∉ part) : split q (join [q] parts ++ [q]) = parts ++ [[]] := by
  induction parts with
  | nil => exact absurd rfl hne
  | cons part rest ih =>
    obtain ⟨hpart, hrest⟩ := List.forall_mem_cons.1 hparts
    cases rest with
    | nil =>
      have hjoin : join [q] [part] = part := by simp [join]
      rw [hjoin, split_append hpart]
      rfl
    | cons next rest =>
      rw [join_cons_cons, List.append_assoc, List.cons_append, split_append hpart,
        ih (List.cons_ne_nil _ _) hrest]
      rfl

/-- No separator stands in a part. -/
lemma not_mem_of_mem_splitWhen {p : Char → Bool} {c : Char} {part : List Char}
    (hc : p c = true) (h : part ∈ splitWhen p s) : c ∉ part := by
  induction s generalizing part with
  | nil =>
    obtain rfl := List.mem_singleton.1 h
    exact List.not_mem_nil
  | cons d s ih =>
    unfold splitWhen at h
    split at h
    · rcases List.mem_cons.1 h with rfl | h
      · exact List.not_mem_nil
      · exact ih h
    · next hd =>
      have hne : c ≠ d := fun he => hd (he ▸ hc)
      split at h
      · obtain rfl := List.mem_singleton.1 h
        simpa using hne
      · next first parts hparts =>
        rcases List.mem_cons.1 h with rfl | h
        · exact List.not_mem_cons_of_ne_of_not_mem hne (ih (hparts ▸ List.mem_cons_self))
        · exact ih (hparts ▸ List.mem_cons_of_mem _ h)

/-- A part of a text consists of characters of the text. -/
lemma mem_of_mem_splitWhen {p : Char → Bool} {c : Char} {part : List Char}
    (h : part ∈ splitWhen p s) (hc : c ∈ part) : c ∈ s := by
  induction s generalizing part with
  | nil =>
    obtain rfl := List.mem_singleton.1 h
    exact hc
  | cons d s ih =>
    unfold splitWhen at h
    split at h
    · rcases List.mem_cons.1 h with rfl | h
      · cases hc
      · exact List.mem_cons_of_mem _ (ih h hc)
    · split at h
      · obtain rfl := List.mem_singleton.1 h
        exact List.mem_cons.2 (.inl (List.mem_singleton.1 hc))
      · next first parts hparts =>
        rcases List.mem_cons.1 h with rfl | h
        · rcases List.mem_cons.1 hc with rfl | hc
          · exact List.mem_cons_self
          · exact List.mem_cons_of_mem _ (ih (hparts ▸ List.mem_cons_self) hc)
        · exact List.mem_cons_of_mem _ (ih (hparts ▸ List.mem_cons_of_mem _ h) hc)

lemma split_cons_self (q : Char) (s : List Char) : split q (q :: s) = [] :: split q s := by
  rw [split, splitWhen, beq_self_eq_true, if_pos rfl]
  rfl

lemma split_cons_of_ne {q c : Char} (hc : c ≠ q) {part : List Char} {rest : List (List Char)}
    (h : split q s = part :: rest) : split q (c :: s) = (c :: part) :: rest := by
  rw [split] at h
  rw [split, splitWhen, beq_false_of_ne hc, if_neg Bool.false_ne_true, h]

/-- The parts of two texts with a separator between them. -/
lemma split_append_cons (q : Char) (s t : List Char) :
    split q (s ++ q :: t) = split q s ++ split q t := by
  induction s with
  | nil => exact split_cons_self q t
  | cons c s ih =>
    obtain ⟨part, rest, hs⟩ := List.exists_cons_of_ne_nil (splitWhen_ne_nil (· == q) s)
    change split q s = part :: rest at hs
    rw [List.cons_append]
    by_cases hc : c = q
    · rw [hc, split_cons_self, split_cons_self, ih]
      rfl
    · rw [split_cons_of_ne hc hs]
      rw [hs] at ih
      exact split_cons_of_ne hc ih

/-- What stands in front of a text belongs to its first part. -/
lemma split_prepend {q : Char} {t part : List Char} {rest : List (List Char)} (ht : q ∉ t)
    (h : split q s = part :: rest) : split q (t ++ s) = (t ++ part) :: rest := by
  induction t with
  | nil => exact h
  | cons c t ih =>
    rw [List.mem_cons, not_or] at ht
    exact split_cons_of_ne (Ne.symm ht.1) (ih ht.2)

/-- What stands behind a text belongs to its last part. -/
lemma split_concat {q c : Char} (hc : c ≠ q) (parts : List (List Char)) {last : List Char}
    (h : split q s = parts ++ [last]) : split q (s ++ [c]) = parts ++ [last ++ [c]] := by
  induction s generalizing parts last with
  | nil =>
    have hnil : parts ++ [last] = [[]] := h.symm
    obtain ⟨rfl, rfl⟩ : parts = [] ∧ last = [] := by
      cases parts with
      | nil => exact ⟨rfl, (List.cons.inj hnil).1⟩
      | cons _ rest => exact absurd (List.cons.inj hnil).2 (by simp)
    exact split_cons_of_ne hc (s := []) rfl
  | cons d s ih =>
    obtain ⟨part, rest, hs⟩ := List.exists_cons_of_ne_nil (splitWhen_ne_nil (· == q) s)
    change split q s = part :: rest at hs
    by_cases hd : d = q
    · obtain rfl := hd
      rw [split_cons_self] at h
      rw [List.cons_append, split_cons_self]
      cases parts with
      | nil => exact absurd (List.cons.inj h).2 (splitWhen_ne_nil _ s)
      | cons first parts =>
        obtain ⟨rfl, htail⟩ := List.cons.inj h
        exact congrArg _ (ih _ htail)
    · rw [split_cons_of_ne hd hs] at h
      cases parts with
      | nil =>
        obtain ⟨rfl, rfl⟩ := List.cons.inj h
        exact split_cons_of_ne hd (ih [] hs)
      | cons first parts =>
        obtain ⟨rfl, rfl⟩ := List.cons.inj h
        exact split_cons_of_ne hd (ih (part :: parts) hs)

lemma exists_trimLeft (s : List Char) :
    ∃ w, s = w ++ trimLeft s ∧ ∀ c ∈ w, Letter.isBlank c = true :=
  ⟨s.takeWhile Letter.isBlank, List.takeWhile_append_dropWhile.symm,
    List.all_eq_true.1 List.all_takeWhile⟩

lemma exists_trimRight (s : List Char) :
    ∃ w, s = trimRight s ++ w ∧ ∀ c ∈ w, Letter.isBlank c = true := by
  obtain ⟨w, hs, hw⟩ := exists_trimLeft s.reverse
  refine ⟨w.reverse, ?_, fun c hc => hw c (List.mem_reverse.1 hc)⟩
  rw [trimRight, dropEndWhile, ← List.reverse_append]
  exact List.reverse_eq_iff.1 hs

lemma mem_of_mem_trim {c : Char} (h : c ∈ trim s) : c ∈ s := by
  obtain ⟨w, hleft, -⟩ := exists_trimLeft s
  obtain ⟨w', hright, -⟩ := exists_trimRight (trimLeft s)
  rw [hleft, hright]
  exact List.mem_append_right _ (List.mem_append_left _ h)

lemma trimRight_append_blank {w : List Char} (hw : ∀ c ∈ w, Letter.isBlank c = true) :
    trimRight (s ++ w) = trimRight s := by
  rw [trimRight, dropEndWhile, List.reverse_append, List.dropWhile_append_of_pos]
  · rfl
  · exact fun c hc => hw c (List.mem_reverse.1 hc)

end Chars

namespace Source

/-- A line is seen as it is written. -/
structure Tidy (s : List Char) : Prop where
  newline : '\n' ∉ s
  carriage : '\r' ∉ s
  comment : '/' ∉ s
  head : ∀ c ∈ s.head?, Letter.isBlank c = false
  last : ∀ c ∈ s.getLast?, Letter.isBlank c = false
  shown : SourceReader.filter {} ⟨s, s⟩ = ({}, some ⟨s, s⟩)

variable {s : List Char} {ls : List (List Char)}

lemma unifyBreaks_of_not_mem (h : '\r' ∉ s) : unifyBreaks s = s := by
  induction s with
  | nil => rfl
  | cons c s ih =>
    rw [List.mem_cons, not_or] at h
    rw [unifyBreaks, if_neg (Ne.symm h.1), ih h.2]
    intro s' hc
    exact absurd hc.symm h.1

lemma Tidy.step (h : Tidy s) : SourceReader.step {} s = ({}, some ⟨s, s⟩) := by
  have htrimRight := Chars.trimRight_of_getLast h.last
  have htrim : Chars.trim s = s := by
    rw [Chars.trim, Chars.trimLeft_of_head h.head, htrimRight]
  have hcomment : Chars.contains SourceReader.commentStart s = false := by
    rw [Chars.contains, SourceReader.commentStart, Chars.cut?_of_not_mem h.comment]
    rfl
  rw [SourceReader.step, htrimRight, htrim]
  simp only [SourceReader.closeComment, SourceReader.removeComments, hcomment, Bool.false_eq_true,
    if_false, h.shown]

lemma run_of_tidy (h : ∀ s ∈ ls, Tidy s) :
    SourceReader.run {} ls = ls.map fun s => ⟨s, s⟩ := by
  induction ls with
  | nil => rfl
  | cons s rest ih =>
    obtain ⟨hs, hrest⟩ := List.forall_mem_cons.1 h
    rw [SourceReader.run, hs.step, List.map_cons]
    exact congrArg _ (ih hrest)

/-- A text of tidy lines is read as these lines. -/
theorem lines_join {texts : List String} (hne : texts ≠ []) (h : ∀ t ∈ texts, Tidy t.toList) :
    lines (Text.join "\n" texts) = texts.map fun t => ⟨t.toList, t.toList⟩ := by
  have hlines : ∀ s ∈ texts.map String.toList, Tidy s := by
    simpa using h
  have hjoin : (Text.join "\n" texts).toList = Chars.join ['\n'] (texts.map String.toList) := by
    rw [Text.join, String.toList_intercalate]
    rfl
  have hcarriage : '\r' ∉ Chars.join ['\n'] (texts.map String.toList) :=
    Chars.not_mem_join (by decide) fun s hs => (hlines s hs).carriage
  rw [lines, hjoin, unifyBreaks_of_not_mem hcarriage,
    Chars.split_join (by simpa using hne) fun s hs => (hlines s hs).newline, run_of_tidy hlines,
    List.map_map]
  rfl

/-! ### Lines as they are written -/

/-- The lines of a text as they are written. -/
def rawLines (s : List Char) : List (List Char) :=
  Chars.split '\n' (unifyBreaks s)

/-- The texts that end a line. -/
def breaks : List (List Char) :=
  [['\n'], ['\r'], ['\r', '\n']]

/-- A text is its lines with the breaks between them. -/
theorem exists_rawLines (s : List Char) : ∃ (first : List Char)
    (ps : List (List Char × List Char)), rawLines s = first :: ps.map Prod.snd ∧
    s = first ++ ps.flatMap (fun p => p.1 ++ p.2) ∧ ∀ p ∈ ps, p.1 ∈ breaks := by
  unfold rawLines
  fun_induction unifyBreaks s with
  | case1 => exact ⟨[], [], rfl, rfl, fun _ h => nomatch h⟩
  | case2 s ih =>
    obtain ⟨first, ps, hlines, hs, hps⟩ := ih
    refine ⟨[], (['\r', '\n'], first) :: ps, ?_, ?_, ?_⟩
    · rw [Chars.split_cons_self, hlines]
      rfl
    · rw [List.flatMap_cons, hs]
      rfl
    · exact List.forall_mem_cons.2 ⟨by simp [breaks], hps⟩
  | case3 c s _ ih =>
    obtain ⟨first, ps, hlines, hs, hps⟩ := ih
    by_cases hc : c = '\n' ∨ c = '\r'
    · refine ⟨[], ([c], first) :: ps, ?_, ?_, ?_⟩
      · have hfeed : (if c = '\r' then '\n' else c) = '\n' := by
          rcases hc with rfl | rfl <;> rfl
        rw [hfeed, Chars.split_cons_self, hlines]
        rfl
      · rw [List.flatMap_cons, hs]
        rfl
      · refine List.forall_mem_cons.2 ⟨?_, hps⟩
        rcases hc with rfl | rfl <;> simp [breaks]
    · rw [not_or] at hc
      refine ⟨c :: first, ps, ?_, by rw [hs]; rfl, hps⟩
      rw [if_neg hc.2]
      exact Chars.split_cons_of_ne hc.1 hlines

lemma unifyBreaks_append {t : List Char} (ht : '\r' ∉ t) (s : List Char) :
    unifyBreaks (t ++ s) = t ++ unifyBreaks s := by
  induction t with
  | nil => rfl
  | cons c t ih =>
    rw [List.mem_cons, not_or] at ht
    rw [List.cons_append, unifyBreaks, if_neg (Ne.symm ht.1), ih ht.2]
    · rfl
    · intro s' hc
      exact absurd hc.symm ht.1

lemma unifyBreaks_concat {c : Char} (hfeed : c ≠ '\n') (hreturn : c ≠ '\r') (s : List Char) :
    unifyBreaks (s ++ [c]) = unifyBreaks s ++ [c] := by
  fun_induction unifyBreaks s with
  | case1 => exact unifyBreaks_of_not_mem (by simpa using Ne.symm hreturn)
  | case2 s ih => exact congrArg _ ih
  | case3 d s hnot ih =>
    rw [List.cons_append, unifyBreaks, ih]
    · rfl
    · rintro s' rfl hs
      cases s with
      | nil => exact hfeed (List.cons.inj hs).1
      | cons e s =>
        obtain ⟨rfl, -⟩ := List.cons.inj hs
        exact hnot s rfl rfl

/-- Lines without breaks are those of the text that joins them. -/
lemma rawLines_join {ls : List (List Char)} (hne : ls ≠ [])
    (h : ∀ s ∈ ls, '\n' ∉ s ∧ '\r' ∉ s) : rawLines (Chars.join ['\n'] ls) = ls := by
  have hreturn := Chars.not_mem_join (by decide : '\r' ≠ '\n') fun s hs => (h s hs).2
  rw [rawLines, unifyBreaks_of_not_mem hreturn, Chars.split_join hne fun s hs => (h s hs).1]

lemma exists_text {ls : List (List Char)} (hne : ls ≠ [])
    (h : ∀ s ∈ ls, '\n' ∉ s ∧ '\r' ∉ s) : ∃ t : String, rawLines t.toList = ls :=
  ⟨String.ofList (Chars.join ['\n'] ls), by rw [String.toList_ofList, rawLines_join hne h]⟩

/-- The lines of a text with more at its front and at its end. -/
lemma rawLines_around {t first last : List Char} {c : Char} {ls : List (List Char)}
    (hfeed : '\n' ∉ t) (hreturn : '\r' ∉ t) (hc : c ≠ '\n') (hc' : c ≠ '\r')
    (h : rawLines s = first :: (ls ++ [last])) :
    rawLines (t ++ (s ++ [c])) = (t ++ first) :: (ls ++ [last ++ [c]]) := by
  rw [rawLines, unifyBreaks_append hreturn, unifyBreaks_concat hc hc']
  exact Chars.split_prepend hfeed (Chars.split_concat hc (first :: ls) h)

/-- The state of a reader behind some lines. -/
def stateAfter (r : SourceReader) (ls : List (List Char)) : SourceReader :=
  ls.foldl (fun r s => (r.step s).1) r

/-- What is seen of lines is seen of the first ones, and of the others from the state behind
them. -/
lemma run_append (r : SourceReader) (ls more : List (List Char)) :
    SourceReader.run r (ls ++ more) =
      SourceReader.run r ls ++ SourceReader.run (stateAfter r ls) more := by
  induction ls generalizing r with
  | nil => rfl
  | cons s rest ih =>
    have hstep := ih (r.step s).1
    rw [List.cons_append, SourceReader.run, SourceReader.run, stateAfter, List.foldl_cons]
    cases h : r.step s with
    | mk r' line =>
      rw [h] at hstep
      cases line with
      | none => exact hstep
      | some line => exact congrArg (line :: ·) hstep

lemma run_prefix (r : SourceReader) (ls more : List (List Char)) :
    SourceReader.run r ls <+: SourceReader.run r (ls ++ more) := by
  rw [run_append]
  exact List.prefix_append _ _

/-- What is seen of a text is seen of it with more lines behind it. -/
theorem lines_prefix {t : String} (ht : '\r' ∉ t.toList) (u : String) :
    lines t <+: lines (t ++ "\n" ++ u) := by
  have hchars : (t ++ "\n" ++ u).toList = t.toList ++ '\n' :: u.toList := by simp
  have hbreaks : unifyBreaks ('\n' :: u.toList) = '\n' :: unifyBreaks u.toList := by
    rw [unifyBreaks]
    · rfl
    · simp
  rw [lines, lines, hchars, unifyBreaks_append ht, hbreaks, Chars.split_append_cons,
    unifyBreaks_of_not_mem ht]
  exact run_prefix _ _ _

/-- A line as it is seen, if nothing is removed from it. -/
def seen (s : List Char) : SourceLine :=
  ⟨Chars.trim (Chars.trimRight s), Chars.trimRight s⟩

/-- A line is what is seen of it, with blanks around it. -/
lemma exists_seen (s : List Char) : ∃ w w', s = w ++ ((seen s).text ++ w') ∧
    (∀ c ∈ w, Letter.isBlank c = true) ∧ ∀ c ∈ w', Letter.isBlank c = true := by
  obtain ⟨w₁, hs, hw₁⟩ := Chars.exists_trimRight s
  obtain ⟨w, hleft, hw⟩ := Chars.exists_trimLeft (Chars.trimRight s)
  obtain ⟨w₂, hright, hw₂⟩ := Chars.exists_trimRight (Chars.trimLeft (Chars.trimRight s))
  refine ⟨w, w₂ ++ w₁, ?_, hw, List.forall_mem_append.2 ⟨hw₂, hw₁⟩⟩
  calc s = Chars.trimRight s ++ w₁ := hs
    _ = w ++ Chars.trimLeft (Chars.trimRight s) ++ w₁ := by rw [← hleft]
    _ = w ++ ((seen s).text ++ w₂) ++ w₁ := by rw [seen, Chars.trim, ← hright]
    _ = w ++ ((seen s).text ++ (w₂ ++ w₁)) := by simp only [List.append_assoc]

/-- What is behind the last character of a line that is no blank does not matter. -/
lemma step_append_blank {s w : List Char} (hw : ∀ c ∈ w, Letter.isBlank c = true)
    (r : SourceReader) : SourceReader.step r (s ++ w) = SourceReader.step r s := by
  rw [SourceReader.step, SourceReader.step, Chars.trimRight_append_blank hw]

lemma text_seen_of_blank {s : List Char} (h : ∀ c ∈ s, Letter.isBlank c = true) :
    (seen s).text = [] := by
  have htrim := Chars.trimRight_append_blank (s := []) h
  rw [List.nil_append] at htrim
  rw [seen, htrim]
  rfl

/-- A line has no comment and is not removed. -/
structure Kept (s : List Char) : Prop where
  comment : Chars.contains SourceReader.commentStart (seen s).text = false
  shown : (SourceReader.step {} s).2.isSome = true

lemma Kept.step (h : Kept s) : SourceReader.step {} s = ({}, some (seen s)) := by
  have hfilter : SourceReader.step {} s = SourceReader.filter {} (seen s) := by
    have hcomment := h.comment
    simp only [seen] at hcomment
    simp only [SourceReader.step, SourceReader.closeComment, SourceReader.removeComments, seen,
      hcomment, Bool.false_eq_true, if_false]
  have hshown := h.shown
  rw [hfilter] at hshown ⊢
  unfold SourceReader.filter at hshown ⊢
  simp only [Bool.false_eq_true, if_false, bne_self_eq_false] at hshown ⊢
  split at hshown
  · cases hshown
  · split at hshown
    · cases hshown
    · split at hshown
      · cases hshown
      · simp only [*]
        rfl

lemma run_map_seen (h : ∀ s ∈ ls, Kept s) (rest : List (List Char)) :
    SourceReader.run {} (ls ++ rest) = ls.map seen ++ SourceReader.run {} rest := by
  induction ls with
  | nil => rfl
  | cons s ls ih =>
    obtain ⟨hs, hls⟩ := List.forall_mem_cons.1 h
    rw [List.cons_append, SourceReader.run, hs.step]
    exact congrArg _ (ih hls)

end Source
end UmlDraw
