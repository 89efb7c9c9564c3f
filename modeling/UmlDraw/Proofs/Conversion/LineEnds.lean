/-
# Line ends

A line may end with a line feed, with a carriage return or with both.  The lines that a dialect sees
are the same, and so are its signs and its cells.  But start marks are looked for in the text as it
is, and there only a line feed begins a line: where lines end with carriage returns alone, a start
mark is found at the front of the text and nowhere else.

The main statements are

* `Source.lines_withBreaks`: the lines do not depend on how they end;
* `Registry.detect?_standard`: the dialect of a text, in terms of its start marks;
* `Registry.lineEnds_iff`: what line ends change.
-/
import UmlDraw.Proofs.Conversion.Frame
import UmlDraw.Proofs.Dialect.Comment
import UmlDraw.Proofs.Pattern.StartMark
import UmlDraw.Proofs.Text.Lines

namespace UmlDraw
namespace Source

open Pattern

/-- A text with other breaks in the places of its line feeds. -/
def replaceFeeds (b s : List Char) : List Char :=
  s.flatMap fun c => if c = '\n' then b else [c]

/-- A text with other breaks at the ends of its lines. -/
def withBreaks (b : List Char) (text : String) : String :=
  String.ofList (replaceFeeds b text.toList)

variable {b s : List Char} {name : String}

lemma replaceFeeds_feed (b s : List Char) : replaceFeeds b ('\n' :: s) = b ++ replaceFeeds b s := by
  simp [replaceFeeds]

lemma replaceFeeds_cons {c : Char} (hc : c ≠ '\n') (b s : List Char) :
    replaceFeeds b (c :: s) = c :: replaceFeeds b s := by
  simp [replaceFeeds, hc]

lemma isBlank_of_mem_breaks (hb : b ∈ breaks) : ∀ c ∈ b, Letter.isBlank c = true := by
  have hall : ∀ b ∈ breaks, ∀ c ∈ b, Letter.isBlank c = true := by decide
  exact hall b hb

lemma exists_cons_of_mem_breaks (hb : b ∈ breaks) :
    ∃ d b', b = d :: b' ∧ (d = '\n' ∨ d = '\r') := by
  simp only [breaks, List.mem_cons, List.not_mem_nil, or_false] at hb
  rcases hb with rfl | rfl | rfl
  · exact ⟨_, _, rfl, .inl rfl⟩
  · exact ⟨_, _, rfl, .inr rfl⟩
  · exact ⟨_, _, rfl, .inr rfl⟩

lemma feed_not_mem_replaceFeeds (s : List Char) : '\n' ∉ replaceFeeds ['\r'] s := by
  induction s with
  | nil => exact List.not_mem_nil
  | cons c s ih =>
    by_cases hc : c = '\n'
    · subst hc
      rw [replaceFeeds_feed]
      simpa using ih
    · rw [replaceFeeds_cons hc, List.mem_cons, not_or]
      exact ⟨Ne.symm hc, ih⟩

/-! ### Lines -/

lemma unifyBreaks_replaceFeeds (hb : b ∈ breaks) (hs : '\r' ∉ s) :
    unifyBreaks (replaceFeeds b s) = s := by
  induction s with
  | nil => rfl
  | cons c s ih =>
    rw [List.mem_cons, not_or] at hs
    by_cases hc : c = '\n'
    · subst hc
      rw [replaceFeeds_feed]
      simp only [breaks, List.mem_cons, List.not_mem_nil, or_false] at hb
      rcases hb with rfl | rfl | rfl
      · rw [List.singleton_append, unifyBreaks, ih hs.2]
        · rfl
        · simp
      · -- no line feed follows the carriage return
        rw [List.singleton_append, unifyBreaks, ih hs.2]
        · rfl
        · intro s' _ h
          exact feed_not_mem_replaceFeeds s (h ▸ List.mem_cons_self)
      · exact congrArg ('\n' :: ·) (ih hs.2)
    · rw [replaceFeeds_cons hc, unifyBreaks, if_neg (Ne.symm hs.1), ih hs.2]
      intro s' h
      exact absurd h.symm hs.1

/-- The lines that dialects see do not depend on how they end. -/
theorem lines_withBreaks {text : String} (hb : b ∈ breaks) (ht : '\r' ∉ text.toList) :
    lines (withBreaks b text) = lines text := by
  rw [lines, lines, withBreaks, String.toList_ofList, unifyBreaks_replaceFeeds hb ht,
    unifyBreaks_of_not_mem ht]

/-! ### Start marks -/

/-- A text has a start mark at its front or behind a line feed. -/
def hasMark (name : String) (s : List Char) : Bool :=
  atMark name s || markBehindFeed name s

/-- The letters of a start mark stand for themselves in a pattern and pass for no break. -/
def IsPlainName (name : String) : Prop :=
  ∀ k ∈ markLetters name, k ∉ specials ∧ Smalls.sameLetter k '\n' = false ∧
    Smalls.sameLetter k '\r' = false

instance : DecidablePred IsPlainName :=
  fun name => inferInstanceAs (Decidable (∀ k ∈ markLetters name, _))

lemma trimLeft_replaceFeeds (hb : b ∈ breaks) (s : List Char) :
    Chars.trimLeft (replaceFeeds b s) = replaceFeeds b (Chars.trimLeft s) := by
  induction s with
  | nil => rfl
  | cons c s ih =>
    unfold Chars.trimLeft at ih ⊢
    by_cases hc : c = '\n'
    · subst hc
      rw [replaceFeeds_feed, List.dropWhile_append_of_pos (isBlank_of_mem_breaks hb), ih,
        List.dropWhile_cons_of_pos (by decide)]
    · rw [replaceFeeds_cons hc, List.dropWhile_cons, List.dropWhile_cons]
      split
      · exact ih
      · exact (replaceFeeds_cons hc b s).symm

lemma spelled?_replaceFeeds {ks : List Char} (hb : b ∈ breaks)
    (hks : ∀ k ∈ ks, Smalls.sameLetter k '\n' = false ∧ Smalls.sameLetter k '\r' = false)
    (last : Option Char) (s : List Char) :
    spelled? ks last (replaceFeeds b s) =
      (spelled? ks last s).map fun x => (x.1, replaceFeeds b x.2) := by
  induction ks generalizing last s with
  | nil => rfl
  | cons k ks ih =>
    obtain ⟨⟨hfeed, hreturn⟩, hks⟩ := List.forall_mem_cons.1 hks
    cases s with
    | nil => rfl
    | cons c s =>
      by_cases hc : c = '\n'
      · subst hc
        obtain ⟨d, b', rfl, hd⟩ := exists_cons_of_mem_breaks hb
        have hbreak : Smalls.sameLetter k d = false := by
          rcases hd with rfl | rfl
          · exact hfeed
          · exact hreturn
        rw [replaceFeeds_feed, List.cons_append, spelled?, spelled?, hbreak, hfeed]
        rfl
      · rw [replaceFeeds_cons hc, spelled?, spelled?]
        split
        · exact ih hks (some c) s
        · rfl

lemma isEdge_replaceFeeds (hb : b ∈ breaks) (last : Option Char) (s : List Char) :
    isEdge last (replaceFeeds b s) = isEdge last s := by
  cases s with
  | nil => rfl
  | cons c s =>
    by_cases hc : c = '\n'
    · subst hc
      obtain ⟨d, b', rfl, hd⟩ := exists_cons_of_mem_breaks hb
      have hword : Letter.isWord d = Letter.isWord '\n' := by
        rcases hd with rfl | rfl <;> decide
      rw [replaceFeeds_feed, List.cons_append, isEdge, isEdge, List.head?_cons, List.head?_cons,
        Option.any_some, Option.any_some, hword]
    · rw [replaceFeeds_cons hc]
      rfl

/-- Breaks before a start mark are blanks like others. -/
lemma atMark_replaceFeeds (hb : b ∈ breaks) (hname : IsPlainName name) (s : List Char) :
    atMark name (replaceFeeds b s) = atMark name s := by
  rw [atMark, atMark, trimLeft_replaceFeeds hb,
    spelled?_replaceFeeds hb fun k hk => (hname k hk).2]
  cases spelled? (markLetters name) none (Chars.trimLeft s) with
  | none => rfl
  | some x => exact isEdge_replaceFeeds hb x.1 x.2

lemma hasMark_feeds (hname : IsPlainName name) (s : List Char) :
    hasMark name (replaceFeeds ['\r', '\n'] s) = hasMark name s := by
  have hb : ['\r', '\n'] ∈ breaks := by decide
  have hbehind : markBehindFeed name (replaceFeeds ['\r', '\n'] s) = markBehindFeed name s := by
    induction s with
    | nil => rfl
    | cons c s ih =>
      by_cases hc : c = '\n'
      · subst hc
        rw [replaceFeeds_feed]
        simp [markBehindFeed, atMark_replaceFeeds hb hname, ih]
      · rw [replaceFeeds_cons hc]
        simp [markBehindFeed, atMark_replaceFeeds hb hname, ih]
  rw [hasMark, hasMark, atMark_replaceFeeds hb hname, hbehind]

/-- Behind a carriage return alone no start mark is found. -/
lemma hasMark_returns (hname : IsPlainName name) (s : List Char) :
    hasMark name (replaceFeeds ['\r'] s) = atMark name s := by
  have hnone : ∀ {s : List Char}, '\n' ∉ s → markBehindFeed name s = false := by
    intro s hs
    induction s with
    | nil => rfl
    | cons c s ih =>
      rw [List.mem_cons, not_or] at hs
      simp [markBehindFeed, Ne.symm hs.1, ih hs.2]
  rw [hasMark, hnone (feed_not_mem_replaceFeeds s), Bool.or_false,
    atMark_replaceFeeds (by decide) hname]

/-- A text has a start mark for one of the names. -/
lemma hasStartMark_eq {names : List String} (hnames : ∀ name ∈ names, IsPlainName name)
    (text : String) :
    hasStartMark text names = .ok (names.any fun name => hasMark name text.toList) := by
  induction names with
  | nil => rfl
  | cons name names ih =>
    obtain ⟨hname, hnames⟩ := List.forall_mem_cons.1 hnames
    have hplain : ∀ c ∈ name.toList, c ∉ specials := fun c hc =>
      (hname c (List.mem_append_right _ hc)).1
    rw [hasStartMark, startMark_eq hplain]
    show (if (markPattern (markLetters name)).occurs text.toList then _ else _) = _
    rw [occurs_markPattern, ih hnames, List.any_cons, ← hasMark]
    cases hasMark name text.toList <;> rfl

end Source

namespace Registry

open Source

variable {r : Registry} {text : String}

/-- The first handler that has one of its names marked, or else the first one that recognises the
text, with its name. -/
def foundBy (r : Registry) (isMarked : String → Bool) (text : String) : Option (String × Handler) :=
  (r.entries.find? fun x => x.2.markers.any isMarked).or (r.recognizing? text)

lemma findM?_eq {ε α : Type} {p : α → Except ε Bool} {q : α → Bool} {as : List α}
    (h : ∀ a ∈ as, p a = .ok (q a)) : as.findM? p = .ok (as.find? q) := by
  induction as with
  | nil => rfl
  | cons a as ih =>
    obtain ⟨ha, has⟩ := List.forall_mem_cons.1 h
    rw [List.findM?, ha, List.find?_cons]
    cases q a with
    | true => rfl
    | false => exact ih has

lemma isPlainName_markers (d : Dialect) : ∀ name ∈ d.markers, IsPlainName name := by
  cases d <;> decide +kernel

lemma foundBy_congr {isMarked isMarked' : String → Bool}
    (h : ∀ d : Dialect, ∀ name ∈ d.markers, isMarked name = isMarked' name) (text : String) :
    standard.foundBy isMarked text = standard.foundBy isMarked' text := by
  have hmarkers : ((fun x : String × Handler => x.2.markers.any isMarked) ∘ fun d : Dialect =>
      (d.key, d.handler)) = (fun x => x.2.markers.any isMarked') ∘ fun d => (d.key, d.handler) := by
    funext d
    refine Bool.eq_iff_iff.2 (List.any_eq_true.trans (Iff.trans ?_ List.any_eq_true.symm))
    refine exists_congr fun name => and_congr_right fun hname => ?_
    rw [h d name hname]
  unfold foundBy
  rw [entries_standard, List.find?_map, List.find?_map, hmarkers]

/-- The dialect of a text: a start mark at the front or behind a line feed counts before signs. -/
theorem detect?_standard (text : String) :
    standard.detect? text =
      .ok (standard.foundBy (fun name => hasMark name text.toList) text) := by
  have hmarked : standard.marked? text = .ok (standard.entries.find? fun x =>
      x.2.markers.any fun name => hasMark name text.toList) :=
    findM?_eq fun x hx => by
      rw [entries_standard] at hx
      obtain ⟨d, -, rfl⟩ := List.mem_map.1 hx
      exact hasStartMark_eq (isPlainName_markers d) text
  rw [detect?, hmarked, foundBy]
  generalize standard.entries.find? _ = marked
  cases marked <;> rfl

lemma recognizing?_congr {text' : String} (h : lines text' = lines text) :
    standard.recognizing? text' = standard.recognizing? text := by
  have hsigns : ((fun x : String × Handler => x.2.recognizes text') ∘ fun d : Dialect =>
      (d.key, d.handler)) = (fun x => x.2.recognizes text) ∘ fun d => (d.key, d.handler) :=
    funext fun d => d.recognizes_congr h
  unfold recognizing?
  rw [entries_standard, List.find?_map, List.find?_map, hsigns]

/-- The lines of a text may end in any way: every dialect draws it by the same cells.  Its dialect
is the same if they end with carriage returns and line feeds.  If they end with carriage returns
alone, only the start mark at the front counts, and the dialect is the same if and only if the
others do not matter. -/
theorem lineEnds_iff (ht : '\r' ∉ text.toList) :
    (∀ b ∈ breaks, SameDiagrams text (withBreaks b text) ∧ ∀ (d : Dialect) (parent : String),
        d.recognizes (withBreaks b text) = d.recognizes text ∧
        d.draw (withBreaks b text) parent = d.draw text parent) ∧
      standard.detect? (withBreaks ['\r', '\n'] text) = standard.detect? text ∧
      standard.detect? (withBreaks ['\r'] text) =
        .ok (standard.foundBy (fun name => atMark name text.toList) text) ∧
      (standard.detect? (withBreaks ['\r'] text) = standard.detect? text ↔
        standard.foundBy (fun name => atMark name text.toList) text =
          standard.foundBy (fun name => hasMark name text.toList) text) := by
  have hfound : ∀ b ∈ breaks, ∀ isMarked : String → Bool,
      standard.foundBy isMarked (withBreaks b text) = standard.foundBy isMarked text := by
    intro b hb isMarked
    rw [foundBy, foundBy, recognizing?_congr (lines_withBreaks hb ht)]
  have hreturns : standard.detect? (withBreaks ['\r'] text) =
      .ok (standard.foundBy (fun name => atMark name text.toList) text) := by
    rw [detect?_standard, hfound _ (by decide)]
    refine congrArg _ (foundBy_congr (fun d name hname => ?_) text)
    rw [withBreaks, String.toList_ofList, hasMark_returns (isPlainName_markers d name hname)]
  refine ⟨fun b hb => ?_, ?_, hreturns, ?_⟩
  · have hlines := lines_withBreaks hb ht
    have hsame := sameDiagrams_of_lines hlines
    exact ⟨hsame, fun d parent => ⟨d.recognizes_congr hlines, d.draw_congr hsame parent⟩⟩
  · rw [detect?_standard, detect?_standard, hfound _ (by decide)]
    refine congrArg _ (foundBy_congr (fun d name hname => ?_) text)
    rw [withBreaks, String.toList_ofList, hasMark_feeds (isPlainName_markers d name hname)]
  · rw [hreturns, detect?_standard, Except.ok.injEq]

/-- A start mark at the front of a text, behind a blank line, is found whatever its lines end
with. -/
theorem lineEnds_iff_front :
    let text := "\n@startstate\nA --> B"
    '\r' ∉ text.toList ∧
      standard.detect? (withBreaks ['\r', '\n'] text) = standard.detect? text ∧
      standard.detect? (withBreaks ['\r'] text) = standard.detect? text := by
  intro text
  have ht : '\r' ∉ text.toList := by decide +kernel
  obtain ⟨-, hfeeds, -, hreturns⟩ := lineEnds_iff ht
  refine ⟨ht, hfeeds, hreturns.2 ?_⟩
  have hmarks : ∀ d : Dialect, ∀ name ∈ d.markers,
      atMark name text.toList = hasMark name text.toList := by
    intro d
    cases d <;> decide +kernel
  exact foundBy_congr hmarks text

/-- Behind a comment a start mark is missed if the lines end with carriage returns. -/
theorem not_lineEnds_mark :
    let text := "' a diagram\n@startstate\nA --> B"
    let key (text : String) : Option (Option String) :=
      (standard.detect? text).toOption.map (Option.map Prod.fst)
    '\r' ∉ text.toList ∧ key text = some (some "state") ∧
      key (withBreaks ['\r', '\n'] text) = some (some "state") ∧
      key (withBreaks ['\r'] text) = some (some "sequence") := by
  decide +kernel

end Registry
end UmlDraw
