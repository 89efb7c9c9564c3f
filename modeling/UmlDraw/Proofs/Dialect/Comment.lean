/-
# What the dialects see of a text

The dialects see the lines of a text that are left when comments, marks and settings are removed.

The main statements are

* `Source.sameDiagrams_of_lines` and `Dialect.draw_congr`: texts with the same lines;
* `SourceReader.harmless_iff`: the comments that leave the state of a reader as it is;
* `Source.transparent_comment_iff`: the comments that no dialect notices, whatever follows.
-/
import Mathlib.Tactic.Lemma
import UmlDraw.Dialect.Basic
import UmlDraw.Proofs.Text.Lines

namespace UmlDraw

/-! ## What depends on the lines of a text only

Every dialect reads a text through the lines that are left of it when comments, marks and settings
are removed, and it looks for its signs in the same lines.  So two texts with the same lines are the
same text for each dialect. -/

variable {t t' : String}

/-- Two texts are read as the same diagram in every dialect. -/
structure Source.SameDiagrams (t t' : String) : Prop where
  classes : Class.Diagram.read t' = Class.Diagram.read t
  descriptions : ∀ dialect, Description.Diagram.read dialect t' = Description.Diagram.read dialect t
  timing : Timing.Diagram.read t' = Timing.Diagram.read t
  states : State.Diagram.read t' = State.Diagram.read t
  activity : Activity.Diagram.read t' = Activity.Diagram.read t
  sequence : Sequence.Diagram.read t' = Sequence.Diagram.read t

lemma Source.sameDiagrams_of_lines (h : Source.lines t' = Source.lines t) :
    Source.SameDiagrams t t' where
  classes := by rw [Class.Diagram.read, Class.Diagram.read, h]
  descriptions := fun _ => by rw [Description.Diagram.read, Description.Diagram.read, h]
  timing := by rw [Timing.Diagram.read, Timing.Diagram.read, h]
  states := by rw [State.Diagram.read, State.Diagram.read, h]
  activity := by rw [Activity.Diagram.read, Activity.Diagram.read, h]
  sequence := by rw [Sequence.Diagram.read, Sequence.Diagram.read, h]

namespace Dialect

/-- The signs of a dialect are looked for in the lines. -/
lemma recognizes_congr (h : Source.lines t' = Source.lines t) (d : Dialect) :
    d.recognizes t' = d.recognizes t := by
  have hlines : Evidence.lines t' = Evidence.lines t := by rw [Evidence.lines, Evidence.lines, h]
  cases d with
  | classes => simp only [recognizes, Evidence.classes, hlines]
  | useCases => simp only [recognizes, Evidence.useCases, hlines]
  | components => simp only [recognizes, Evidence.components, hlines]
  | timing => simp only [recognizes, Evidence.timing, hlines]
  | states => simp only [recognizes, Evidence.states, hlines]
  | activity => simp only [recognizes, Evidence.activity, hlines]
  | sequence => simp only [recognizes, Evidence.sequence, hlines]

/-- Texts with the same diagram are drawn by the same cells. -/
lemma draw_congr (h : Source.SameDiagrams t t') (d : Dialect) (parent : String) :
    d.draw t' parent = d.draw t parent := by
  cases d with
  | classes => rw [draw, draw, h.classes]
  | useCases => rw [draw, draw, h.descriptions]
  | components => rw [draw, draw, h.descriptions]
  | timing => rw [draw, draw, h.timing]
  | states => rw [draw, draw, h.states]
  | activity => rw [draw, draw, h.activity]
  | sequence => rw [draw, draw, h.sequence]

end Dialect
end UmlDraw

/-! ## Lines with a comment

A line that begins with a quotation mark is a comment, and no dialect sees it.  But such a line is
found only behind block comments, style blocks and settings: a block comment may begin in it, and
inside of settings its braces count.  These are the only ways in which a comment can matter. -/

namespace UmlDraw

namespace Chars

lemma trimRight_cons {c : Char} (hc : Letter.isBlank c = false) (s : List Char) :
    trimRight (c :: s) = c :: trimRight s := by
  rw [trimRight, trimRight, dropEndWhile, dropEndWhile, List.reverse_cons, List.dropWhile_append]
  split
  · next hblank =>
    rw [List.isEmpty_iff.1 hblank, List.dropWhile_cons_of_neg (by simp [hc])]
    rfl
  · rw [List.reverse_append]
    rfl

lemma trimRight_trimRight (s : List Char) : trimRight (trimRight s) = trimRight s := by
  obtain ⟨w, hs, hw⟩ := exists_trimRight s
  have htrim := trimRight_append_blank (s := trimRight s) hw
  rw [← hs] at htrim
  exact htrim.symm

lemma trim_cons {c : Char} (hc : Letter.isBlank c = false) (s : List Char) :
    trim (c :: s) = c :: trimRight s := by
  rw [trim, trimLeft_of_head (by simpa using hc), trimRight_cons hc]

end Chars

namespace SourceReader

/-- The line of a comment. -/
def commentLine (c : List Char) : List Char :=
  '\'' :: c

/-- What is left of a comment without the block comments that begin and end in it. -/
def outsideBlocks (c : List Char) : List Char :=
  Chars.trim (inlineComment.erase (commentLine (Chars.trimRight c)))

/-- A block comment begins in a comment and goes on behind it. -/
def opensBlock (c : List Char) : Bool :=
  Chars.contains commentStart (outsideBlocks c)

/-- The state behind a line whose braces count if it is inside of settings. -/
def countBraces (r : SourceReader) (s : List Char) : SourceReader :=
  if r.inStyle = true ∨ r.depth = 0 then r
  else { r with depth := r.depth + ((s.count '\x7b' : Int) - s.count '\x7d') }

/-- No block comment goes on behind a comment, and where braces count, it opens as many as it
closes. -/
structure Harmless (r : SourceReader) (c : List Char) : Prop where
  closed : opensBlock c = false
  balanced : r.inStyle = false → r.depth ≠ 0 →
    (outsideBlocks c).count '\x7b' = (outsideBlocks c).count '\x7d'

variable {r : SourceReader} {c s : List Char}

/-! ### What a comment does -/

lemma filter_quote (r : SourceReader) (s raw : List Char) :
    r.filter ⟨'\'' :: s, raw⟩ = (r.countBraces ('\'' :: s), none) := by
  have hend : styleEnd.reads ('\'' :: s) = false := rfl
  have hstart : styleStart.reads ('\'' :: s) = false := rfl
  have hsettings : settingsStart.reads ('\'' :: s) = false := rfl
  unfold filter countBraces
  by_cases hstyle : r.inStyle = true
  · simp [hstyle, hend]
  · by_cases hdepth : r.depth = 0
    · simp [hstyle, hstart, hsettings, hdepth]
    · simp [hstyle, hstart, hdepth]

/-- Nothing is erased where no block comment begins. -/
lemma eraseWithin_of_not_contains (n : Nat) (h : Chars.cut? commentStart s = none) :
    inlineComment.eraseWithin n s = s := by
  induction n generalizing s with
  | zero => rfl
  | succ n ih =>
    cases s with
    | nil => rfl
    | cons d s =>
      rw [Chars.cut?] at h
      cases hafter : Chars.after? commentStart (d :: s) with
      | some rest => simp [hafter] at h
      | none =>
        simp only [hafter, Option.map_eq_none_iff] at h
        have hstart : inlineComment.start (d :: s) = none := by
          rw [Scan.start, inlineComment, Scan.run_bind, Scan.run_chars, hafter]
          rfl
        rw [Scan.eraseWithin, hstart]
        exact congrArg _ (ih h)

lemma exists_outsideBlocks (c : List Char) : ∃ s, outsideBlocks c = '\'' :: s := by
  have herase : ∃ s, inlineComment.erase (commentLine (Chars.trimRight c)) = '\'' :: s := ⟨_, rfl⟩
  obtain ⟨s, hs⟩ := herase
  exact ⟨_, by rw [outsideBlocks, hs, Chars.trim_cons (by decide)]⟩

lemma outsideBlocks_of_not_contains
    (h : Chars.contains commentStart (commentLine (Chars.trimRight c)) = false) :
    outsideBlocks c = commentLine (Chars.trimRight c) := by
  have hcut : Chars.cut? commentStart (commentLine (Chars.trimRight c)) = none := by
    simpa [Chars.contains] using h
  rw [outsideBlocks, Scan.erase, eraseWithin_of_not_contains _ hcut, commentLine,
    Chars.trim_cons (by decide), Chars.trimRight_trimRight]

/-- The state behind the braces of a comment, and whether a block comment goes on behind it. -/
lemma removeComments_commentLine (r : SourceReader) (c raw : List Char) :
    ∃ s raw', r.removeComments ⟨commentLine (Chars.trimRight c), raw⟩ =
        ({ r with inComment := r.inComment || opensBlock c }, some ⟨'\'' :: s, raw'⟩) ∧
      (opensBlock c = false → outsideBlocks c = '\'' :: s) := by
  obtain ⟨s, hs⟩ := exists_outsideBlocks c
  cases hcontains : Chars.contains commentStart (commentLine (Chars.trimRight c)) with
  | false =>
    have houtside := outsideBlocks_of_not_contains hcontains
    have hclosed : opensBlock c = false := by rw [opensBlock, houtside, hcontains]
    refine ⟨Chars.trimRight c, raw, ?_, fun _ => houtside⟩
    simp only [removeComments, hcontains, hclosed, Bool.false_eq_true, if_false, Bool.or_false]
    rfl
  | true =>
    have houtside : Chars.trim (inlineComment.erase (commentLine (Chars.trimRight c))) =
        outsideBlocks c := rfl
    cases hcut : Chars.cut? commentStart (outsideBlocks c) with
    | none =>
      have hclosed : opensBlock c = false := by rw [opensBlock, Chars.contains, hcut]; rfl
      refine ⟨s, outsideBlocks c, ?_, fun _ => hs⟩
      rw [hs] at hcut
      rw [removeComments, if_pos hcontains]
      simp only [houtside, hs, hcut, hclosed, List.isEmpty_cons, Bool.false_eq_true, if_false,
        Bool.or_false]
    | some found =>
      have hopen : opensBlock c = true := by rw [opensBlock, Chars.contains, hcut]; rfl
      obtain ⟨before, rest⟩ := found
      -- the block comment begins behind the quotation mark
      have hbefore : ∃ before', before = '\'' :: before' := by
        have hafter : Chars.after? commentStart ('\'' :: s) = none := rfl
        rw [hs, Chars.cut?, hafter] at hcut
        obtain ⟨⟨before', _⟩, -, h⟩ := Option.map_eq_some_iff.1 hcut
        exact ⟨before', (Prod.mk.inj h).1.symm⟩
      obtain ⟨before', rfl⟩ := hbefore
      refine ⟨Chars.trimRight before', '\'' :: Chars.trimRight before', ?_, fun h => ?_⟩
      · rw [removeComments, if_pos hcontains]
        simp only [houtside, hcut, hopen, Chars.trim_cons (by decide : Letter.isBlank '\'' = false),
          List.isEmpty_cons, Bool.false_eq_true, if_false, Bool.or_true]
      · rw [hopen] at h
        cases h

/-- No dialect sees a comment; it may open a block comment, and its braces count in settings. -/
lemma step_commentLine (hr : r.inComment = false) (c : List Char) :
    ∃ r', r.step (commentLine c) = (r', none) ∧ r'.inComment = opensBlock c ∧
      (opensBlock c = false → r' = r.countBraces (outsideBlocks c)) := by
  have hraw : Chars.trimRight (commentLine c) = commentLine (Chars.trimRight c) :=
    Chars.trimRight_cons (by decide) c
  have htext : Chars.trim (commentLine (Chars.trimRight c)) = commentLine (Chars.trimRight c) := by
    rw [commentLine, Chars.trim_cons (by decide), Chars.trimRight_trimRight]
  obtain ⟨s, raw', hremove, hs⟩ :=
    removeComments_commentLine r c (commentLine (Chars.trimRight c))
  have hcount : ∀ (r : SourceReader) s, (r.countBraces s).inComment = r.inComment := by
    intro r s
    unfold countBraces
    split <;> rfl
  refine ⟨countBraces { r with inComment := r.inComment || opensBlock c } ('\'' :: s), ?_, ?_,
    fun hclosed => ?_⟩
  · unfold step
    simp only [hraw, htext, closeComment, hr, Bool.false_eq_true, if_false, hremove, filter_quote]
  · rw [hcount, hr, Bool.false_or]
  · rw [hclosed, Bool.or_false, hs hclosed]

/-- A comment is harmless if it leaves the state as it is. -/
theorem harmless_iff (hr : r.inComment = false) (c : List Char) :
    r.Harmless c ↔ r.step (commentLine c) = (r, none) := by
  obtain ⟨r', hstep, hopen, hcount⟩ := step_commentLine hr c
  rw [hstep, Prod.mk.injEq, eq_self_iff_true, and_true]
  constructor
  · rintro ⟨hclosed, hbalanced⟩
    rw [hcount hclosed, countBraces]
    split
    · rfl
    · next h =>
      rw [not_or, Bool.not_eq_true] at h
      rw [hbalanced h.1 h.2, Int.sub_self, Int.add_zero]
  · rintro rfl
    have hclosed : opensBlock c = false := hopen.symm.trans hr
    refine ⟨hclosed, fun hstyle hdepth => ?_⟩
    have hsame := congrArg SourceReader.depth (hcount hclosed)
    rw [countBraces, if_neg (by simp [hstyle, hdepth])] at hsame
    simp only at hsame
    omega

/-! ### Lines that tell two states apart -/

/-- As many closing braces as are open. -/
def closingBraces (depth : Int) : List Char :=
  if 0 < depth then List.replicate depth.toNat '\x7d' else List.replicate (-depth).toNat '\x7b'

/-- Lines that end the blocks that are open, with a line behind them that a dialect sees. -/
def closing (r : SourceReader) : List (List Char) :=
  (if r.inStyle then ["</style>".toList] else []) ++
    (if r.depth = 0 then [] else [closingBraces r.depth]) ++ [['x']]

lemma closing_ne_nil (r : SourceReader) : r.closing ≠ [] :=
  List.append_ne_nil_of_right_ne_nil _ (List.cons_ne_nil _ _)

/-- The line that a dialect sees. -/
def lastLine : SourceLine :=
  ⟨['x'], ['x']⟩

lemma mem_closingBraces {depth : Int} {d : Char} (h : d ∈ closingBraces depth) :
    d = '\x7b' ∨ d = '\x7d' := by
  unfold closingBraces at h
  split at h
  · exact .inr (List.eq_of_mem_replicate h)
  · exact .inl (List.eq_of_mem_replicate h)

lemma exists_closingBraces {depth : Int} (h : depth ≠ 0) :
    ∃ d s, closingBraces depth = d :: s ∧ (d = '\x7b' ∨ d = '\x7d') := by
  cases hs : closingBraces depth with
  | nil =>
    unfold closingBraces at hs
    split at hs <;> simp at hs <;> omega
  | cons d s => exact ⟨d, s, rfl, mem_closingBraces (hs ▸ List.mem_cons_self)⟩

lemma count_closingBraces (depth : Int) :
    depth + (((closingBraces depth).count '\x7b' : Int) - (closingBraces depth).count '\x7d') =
      0 := by
  unfold closingBraces
  split
  · simp [List.count_replicate]
    omega
  · simp [List.count_replicate]
    omega

/-- A line without quotation marks and slashes is filtered as it is. -/
lemma step_closingBraces (hr : r.inComment = false) (depth : Int) :
    r.step (closingBraces depth) = r.filter ⟨closingBraces depth, closingBraces depth⟩ := by
  have hblank : ∀ d ∈ closingBraces depth, Letter.isBlank d = false := by
    intro d hd
    rcases mem_closingBraces hd with rfl | rfl <;> decide
  have hright : Chars.trimRight (closingBraces depth) = closingBraces depth :=
    Chars.trimRight_of_getLast fun d hd => hblank d (List.mem_of_mem_getLast? hd)
  have htrim : Chars.trim (closingBraces depth) = closingBraces depth := by
    rw [Chars.trim, Chars.trimLeft_of_head fun d hd => hblank d (List.mem_of_mem_head? hd), hright]
  have hslash : '/' ∉ closingBraces depth := by
    intro hmem
    rcases mem_closingBraces hmem with h | h <;> exact absurd h (by decide)
  have hcomment : Chars.contains commentStart (closingBraces depth) = false := by
    rw [Chars.contains, commentStart, Chars.cut?_of_not_mem hslash]
    rfl
  simp only [step, hright, htrim, closeComment, hr, Bool.false_eq_true, if_false, removeComments,
    hcomment]

/-- Inside of settings the braces of a line count, and no dialect sees it. -/
lemma step_closingBraces_settings (hr : r.inComment = false) (hstyle : r.inStyle = false)
    (hdepth : r.depth ≠ 0) {depth : Int} (h : depth ≠ 0) :
    r.step (closingBraces depth) = ({ r with depth := r.depth - depth }, none) := by
  have hstart : styleStart.reads (closingBraces depth) = false := by
    obtain ⟨d, s, hs, rfl | rfl⟩ := exists_closingBraces h <;> rw [hs] <;> rfl
  have hcount := count_closingBraces depth
  rw [step_closingBraces hr, filter]
  simp only [hstyle, hstart, Bool.false_eq_true, if_false, bne_iff_ne, ne_eq, hdepth,
    not_false_eq_true, if_true]
  congr 2
  omega

lemma run_closing (hr : r.inComment = false) : r.run r.closing = [lastLine] := by
  have hlast : ∀ r : SourceReader, r.inComment = false → r.inStyle = false →
      r.run ((if r.depth = 0 then [] else [closingBraces r.depth]) ++ [['x']]) = [lastLine] := by
    intro r hr hstyle
    by_cases hdepth : r.depth = 0
    · rw [if_pos hdepth]
      obtain ⟨_, _, _⟩ := r
      cases hr
      cases hstyle
      cases hdepth
      rfl
    · rw [if_neg hdepth, List.singleton_append, run,
        step_closingBraces_settings hr hstyle hdepth hdepth, Int.sub_self]
      obtain ⟨_, _, _⟩ := r
      cases hr
      cases hstyle
      rfl
  unfold closing
  by_cases hstyle : r.inStyle = true
  · rw [if_pos hstyle, List.append_assoc, List.singleton_append, run]
    have hstep : r.step "</style>".toList = ({ r with inStyle := false }, none) := by
      obtain ⟨_, _, _⟩ := r
      cases hr
      cases hstyle
      rfl
    rw [hstep]
    exact hlast { r with inStyle := false } hr rfl
  · rw [if_neg hstyle, List.nil_append]
    exact hlast r hr (by simpa using hstyle)

/-- Inside of a block comment lines without a quotation mark are not seen. -/
lemma run_inComment {ls : List (List Char)} (hr : r.inComment = true)
    (h : ∀ s ∈ ls, '\'' ∉ s) : r.run ls = [] := by
  induction ls with
  | nil => rfl
  | cons s rest ih =>
    obtain ⟨hs, hrest⟩ := List.forall_mem_cons.1 h
    have htext : '\'' ∉ Chars.trim (Chars.trimRight s) := by
      intro hmem
      obtain ⟨w, hright, -⟩ := Chars.exists_trimRight s
      rw [hright] at hs
      exact hs (List.mem_append_left _ (Chars.mem_of_mem_trim hmem))
    have hcut : Chars.cut? commentEnd (Chars.trim (Chars.trimRight s)) = none := by
      rw [commentEnd, Chars.cut?_of_not_mem htext]
    have hstep : r.step s = (r, none) := by
      simp only [step, closeComment, hr, if_true, hcut]
    rw [run, hstep]
    exact ih hrest

/-- The lines that end blocks have no breaks and no quotation marks. -/
lemma plain_closing (r : SourceReader) :
    ∀ s ∈ r.closing, ∀ d ∈ s, d ≠ '\'' ∧ d ≠ '\n' ∧ d ≠ '\r' := by
  intro s hs
  simp only [closing, List.mem_append, List.mem_singleton] at hs
  rcases hs with (hs | hs) | rfl
  · split at hs
    · rw [List.mem_singleton.1 hs]
      decide
    · cases hs
  · split at hs
    · cases hs
    · rw [List.mem_singleton.1 hs]
      intro d hd
      rcases mem_closingBraces hd with rfl | rfl <;> decide
  · decide

/-- Outside of blocks braces are lines that a dialect sees. -/
lemma run_closingBraces {depth : Int} (h : depth ≠ 0) (rest : List (List Char)) :
    run {} (closingBraces depth :: rest) =
      ⟨closingBraces depth, closingBraces depth⟩ :: run {} rest := by
  have hfilter : filter {} ⟨closingBraces depth, closingBraces depth⟩ =
      ({}, some ⟨closingBraces depth, closingBraces depth⟩) := by
    obtain ⟨d, s, hs, rfl | rfl⟩ := exists_closingBraces h <;> rw [hs] <;> rfl
  rw [run, step_closingBraces rfl, hfilter]

/-- Where the number of open braces is another one, the same braces do not end the settings. -/
lemma run_closing_depth {depth depth' : Int} (h : depth ≠ 0) (h' : depth' ≠ depth) :
    run { depth := depth' } [closingBraces depth, ['x']] ≠ [lastLine] := by
  by_cases hzero : depth' = 0
  · obtain ⟨d, s, hs, hd⟩ := exists_closingBraces h
    rw [hzero, run_closingBraces h, hs]
    intro heq
    have hhead : d = 'x' := by
      have htext := congrArg SourceLine.text (List.cons.inj heq).1
      exact (List.cons.inj htext).1
    rcases hd with rfl | rfl <;> exact absurd hhead (by decide)
  · have hopen : depth' - depth ≠ 0 := by omega
    have hlast : step { depth := depth' - depth } ['x'] = ({ depth := depth' - depth }, none) := by
      have hfilter : filter { depth := depth' - depth } ⟨['x'], ['x']⟩ =
          ({ depth := depth' - depth }, none) := by
        have hstart : styleStart.reads ['x'] = false := rfl
        simp [filter, hstart, hopen]
      exact hfilter
    rw [run, step_closingBraces_settings rfl rfl hzero h]
    show run { depth := depth' - depth } [['x']] ≠ [lastLine]
    rw [run, hlast]
    exact (List.cons_ne_nil _ _).symm

/-- Behind a comment that is not harmless the same lines are seen in another way. -/
lemma run_commentLine_closing (hr : r.inComment = false) (hc : ¬ r.Harmless c) :
    r.run (commentLine c :: r.closing) ≠ [lastLine] := by
  obtain ⟨r', hstep, hopen, hcount⟩ := step_commentLine hr c
  have hrun : r.run (commentLine c :: r.closing) = r'.run r.closing := by rw [run, hstep]
  rw [hrun]
  cases hclosed : opensBlock c with
  | true =>
    have hquote : ∀ s ∈ r.closing, '\'' ∉ s := fun s hs hmem => (plain_closing r s hs _ hmem).1 rfl
    rw [run_inComment (hopen.trans hclosed) hquote]
    exact (List.cons_ne_nil _ _).symm
  | false =>
    have hbraces : ¬(r.inStyle = false → r.depth ≠ 0 →
        (outsideBlocks c).count '\x7b' = (outsideBlocks c).count '\x7d') :=
      fun h => hc ⟨hclosed, h⟩
    rw [Classical.not_imp, Classical.not_imp] at hbraces
    obtain ⟨hstyle, hdepth, hne⟩ := hbraces
    rw [hcount hclosed, countBraces, if_neg (by simp [hstyle, hdepth]), closing,
      if_neg (by simp [hstyle]), if_neg hdepth]
    obtain ⟨_, depth, _⟩ := r
    cases hr
    cases hstyle
    exact run_closing_depth hdepth (by dsimp only; omega)

end SourceReader

namespace Source

open SourceReader

variable {before : List (List Char)} {c : List Char}

/-- A comment that is inserted into a text outside of block comments is noticed by no dialect,
whatever follows in the text, if and only if it is harmless where it stands: it opens no block
comment, and inside of settings it opens as many braces as it closes. -/
theorem transparent_comment_iff (hbefore : ∀ s ∈ before, '\n' ∉ s ∧ '\r' ∉ s)
    (hc : '\n' ∉ c ∧ '\r' ∉ c) (hopen : (stateAfter {} before).inComment = false) :
    (∀ (t t' : String) (rest : List (List Char)), rawLines t.toList = before ++ rest →
        rawLines t'.toList = before ++ commentLine c :: rest →
        lines t' = lines t ∧ SameDiagrams t t') ↔
      (stateAfter {} before).Harmless c := by
  have hlines : ∀ (t : String) (ls : List (List Char)), rawLines t.toList = before ++ ls →
      lines t = run {} before ++ run (stateAfter {} before) ls := by
    intro t ls ht
    rw [← run_append, ← ht]
    rfl
  constructor
  · intro h
    refine Classical.byContradiction fun hharm => ?_
    have hclosing : ∀ s ∈ (stateAfter {} before).closing, '\n' ∉ s ∧ '\r' ∉ s := fun s hs =>
      ⟨fun hmem => (plain_closing _ s hs _ hmem).2.1 rfl,
        fun hmem => (plain_closing _ s hs _ hmem).2.2 rfl⟩
    have hcomment : '\n' ∉ commentLine c ∧ '\r' ∉ commentLine c := by
      simpa [commentLine] using hc
    -- the blocks that are open are ended in both texts, and a line follows
    have htext : ∀ s ls, (∀ s' ∈ s :: ls, '\n' ∉ s' ∧ '\r' ∉ s') →
        ∃ t : String, rawLines t.toList = before ++ s :: ls := fun s ls hls =>
      exists_text (by simp) (List.forall_mem_append.2 ⟨hbefore, hls⟩)
    obtain ⟨s, ls, hls⟩ := List.exists_cons_of_ne_nil (closing_ne_nil (stateAfter {} before))
    rw [hls] at hclosing
    obtain ⟨t, ht⟩ := htext s ls hclosing
    obtain ⟨t', ht'⟩ :=
      htext (commentLine c) (s :: ls) (List.forall_mem_cons.2 ⟨hcomment, hclosing⟩)
    have hsame := (h t t' (s :: ls) ht ht').1
    rw [hlines _ _ ht, hlines _ _ ht', List.append_cancel_left_eq, ← hls,
      run_closing hopen] at hsame
    exact run_commentLine_closing hopen hharm hsame
  · intro hharm t t' rest ht ht'
    have hsame : lines t' = lines t := by
      rw [hlines t _ ht, hlines t' _ ht', run, (harmless_iff hopen c).1 hharm]
    exact ⟨hsame, sameDiagrams_of_lines hsame⟩

/-- A comment inside of settings, with braces and with a block comment that ends in it. -/
theorem transparent_comment_settings :
    let t := "skinparam class \x7b\nBorderColor red\n\x7d\nclass A"
    let t' := "skinparam class \x7b\n' \x7b /' \x7d '/ \x7d\nBorderColor red\n\x7d\nclass A"
    (stateAfter {} ["skinparam class \x7b".toList]).depth = 1 ∧ lines t' = lines t ∧
      SameDiagrams t t' := by
  intro t t'
  have hharm : (stateAfter {} ["skinparam class \x7b".toList]).Harmless
      " \x7b /' \x7d '/ \x7d".toList :=
    ⟨by decide +kernel, fun _ _ => by decide +kernel⟩
  have hsame := (transparent_comment_iff (by decide +kernel) (by decide +kernel)
    (by decide +kernel)).2 hharm t t' ["BorderColor red".toList, "\x7d".toList, "class A".toList]
    (by decide +kernel) (by decide +kernel)
  exact ⟨by decide +kernel, hsame⟩

/-- A comment with the start of a block comment takes the next class away, and one with a closing
brace inside of settings ends them, so that the next brace ends a package. -/
theorem not_transparent_comment :
    let t := "class A\nclass B"
    let t' := "class A\n' see /' here\nclass B"
    let u := "package P \x7b\nskinparam class \x7b\n\x7d\nclass A\n\x7d"
    let u' := "package P \x7b\nskinparam class \x7b\n' \x7d\n\x7d\nclass A\n\x7d"
    (rawLines t.toList = "class A".toList :: ["class B".toList] ∧
      rawLines t'.toList =
        "class A".toList :: commentLine " see /' here".toList :: ["class B".toList] ∧
      (stateAfter {} ["class A".toList]).inComment = false ∧ lines t' ≠ lines t ∧
      (Class.Diagram.read t).toOption.map (fun d => d.entities.keys) = some ["A", "B"] ∧
      (Class.Diagram.read t').toOption.map (fun d => d.entities.keys) = some ["A"]) ∧
    lines u' ≠ lines u ∧
      (Class.Diagram.read u).toOption.map (fun d => Folder.allMembers d.packages) = some ["A"] ∧
      (Class.Diagram.read u').toOption.map (fun d => Folder.allMembers d.packages) = some [] := by
  decide +kernel

end Source
end UmlDraw
