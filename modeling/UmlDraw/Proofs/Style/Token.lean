/-
# The colors that lines write

A color in a line is a word behind a number sign, or a part of a list in brackets.  None of the ways
to write one lets a semicolon in: it ends the word, and it separates the parts of the list.

The main statements are

* `Token.yields_plainColor` and `Token.yields_color`: colors as words;
* `ModifierItem.fits_color?`: colors in brackets;
* `Decoration.fits_take`: colors behind declared names;
* `Link.yields_scan` and `NoteLine.yields_scan`: the colors of links and notes.
-/
import UmlDraw.Proofs.Style.Vocabulary
import UmlDraw.Proofs.Text.Consumed
import UmlDraw.Proofs.Text.Result
import UmlDraw.Source.Decoration

namespace UmlDraw

open Scan
open Style (Unbroken)

/-- A word holds no semicolon. -/
lemma Letter.ne_of_isWord {c : Char} (h : isWord c = true) : c ≠ ';' := by
  rintro rfl
  exact absurd h (by decide +kernel)

/-- A text without semicolons is unbroken. -/
lemma Style.unbroken_of_forall {s : String} (h : ∀ c ∈ s.toList, c ≠ ';') : Unbroken s :=
  fun hmem => h _ hmem rfl

namespace Token

lemma within_word : (Scan.many1 Letter.isWord).Within (· ≠ ';') :=
  Within.many1 fun _ => Letter.ne_of_isWord

/-- A number sign and a word. -/
lemma within_sign : (do
    let _ ← Scan.char '#'
    Scan.many1 Letter.isWord : Scan String).Within (· ≠ ';') := by
  refine Within.bind (Within.char ?_) fun _ => within_word
  decide

lemma within_plainColor : plainColor.Within (· ≠ ';') := by
  unfold plainColor
  exact within_sign.withinCaptured

lemma yields_plainColor : plainColor.Yields Unbroken := by
  unfold plainColor
  exact within_sign.captured.imp fun _ => Style.unbroken_of_forall

lemma yields_color : color.Yields Unbroken := by
  have hsecond : (do
      let _ ← Scan.satisfy fun c => c == '-' || c == '\\' || c == '|' || c == '/'
      Scan.many1 Letter.isWord : Scan String).Within (· ≠ ';') := by
    refine Within.bind (Within.satisfy ?_) fun _ => within_word
    rintro c hc rfl
    exact absurd hc (by decide)
  unfold color
  refine Yields.imp (Within.captured ?_) fun _ => Style.unbroken_of_forall
  refine within_plainColor.bind fun _ => ?_
  exact hsecond.optional.bind fun _ => Within.pure _

end Token

/-- A color in a line, if there is one. -/
lemma Color.yields_optional {p : Scan String} (h : p.Yields Unbroken) :
    (Scan.optional p).Yields (Fits Unbroken) :=
  (Yields.optional h).imp fun _ => fits_of_unbroken

/-! ### Colors in brackets -/

namespace ModifierItem

/-- The colors among some items are as described. -/
def Paints (S : String → Prop) (items : List ModifierItem) : Prop :=
  ∀ c, color c ∈ items → S c

/-- Semicolons separate the items of a modifier. -/
lemma paints_read (text : String) : Paints Unbroken (read text) := by
  intro c hc
  obtain ⟨part, hpart, hitem⟩ := List.mem_filterMap.1 hc
  have hclosed : ';' ∉ part := Chars.not_mem_of_mem_splitWhen (by decide) hpart
  unfold ofPart? at hitem
  dsimp only at hitem
  split_ifs at hitem
  all_goals cases hitem
  rw [Unbroken, String.toList_ofList]
  exact fun hmem => hclosed (Chars.mem_of_mem_trim hmem)

lemma fits_color? {items : List ModifierItem} (h : Paints Unbroken items) :
    Color.Fits Unbroken (color? items) := by
  refine Color.fits_of_unbroken ?_
  unfold color?
  refine List.foldlRecOn (motive := fun found => ∀ s, found = some s → Unbroken s) items _ nofun
    fun found hfound item hitem => ?_
  cases item with
  | color c => exact fun s hs => Option.some.inj hs ▸ h c hitem
  | line l => exact hfound

end ModifierItem

/-! ### Colors behind declared names -/

namespace Decoration

lemma yields_borderColor : borderColor.Yields Unbroken := by
  unfold borderColor
  refine Yields.bind fun _ => Yields.bind fun _ => (Yields.many1 _).bindOf fun s hs => ?_
  refine Yields.pure (Style.unbroken_of_forall fun c hc => ?_)
  rw [String.toList_append] at hc
  rcases List.mem_append.1 hc with hc | hc
  · rintro rfl
    exact absurd hc (by decide)
  · exact Letter.ne_of_isWord (hs c hc)

lemma unbroken_of_findColor {behindSign : Bool} {s before rest : List Char} {c : String}
    (h : findColor behindSign s = some (before, c, rest)) : Unbroken c := by
  induction s generalizing behindSign before with
  | nil => cases h
  | cons d s ih =>
    unfold findColor at h
    split at h
    · next color t hcolor =>
      have hsame : color = c := congrArg (fun r => r.2.1) (Option.some.inj h)
      cases behindSign with
      | true => cases hcolor
      | false => exact hsame ▸ Token.yields_color.of_start hcolor
    · obtain ⟨⟨before', c', t⟩, hfound, heq⟩ := Option.map_eq_some_iff.1 h
      have hsame : (c', t) = (c, rest) := congrArg Prod.snd heq
      exact ih (hfound.trans (congrArg (fun r => some (before', r)) hsame))

/-- The colors among decorations. -/
theorem fits_take (withLine : Bool) (s : List Char) :
    Color.Fits Unbroken (take withLine s).1.lineColor ∧
      Color.Fits Unbroken (take withLine s).1.color := by
  have hline : ∀ t : List Char, ∀ r, (if withLine then borderColor.search t else none) = some r →
      Unbroken r.2.1 := by
    rintro t ⟨before, line, rest⟩ hr
    split_ifs at hr
    exact yields_borderColor.of_search hr
  unfold take
  dsimp only
  constructor
  · refine Color.fits_of_unbroken fun c hc => ?_
    split at hc
    · next hfound =>
      obtain rfl := Option.some.inj hc
      exact hline _ _ hfound
    · cases hc
  · refine Color.fits_of_unbroken fun c hc => ?_
    split at hc
    · next hfound =>
      obtain rfl := Option.some.inj hc
      exact unbroken_of_findColor hfound
    · cases hc

end Decoration

/-! ### Links and notes -/

variable {shape color : Scan String} {body : Scan Unit}

lemma Link.yields_scan [shape.Honest] [body.Honest] (qualified : Bool) :
    (scan shape body qualified).Yields fun l => Color.Fits Unbroken l.color := by
  unfold scan
  iterate 14 refine Yields.bind fun _ => ?_
  split
  exact Yields.pure (ModifierItem.fits_color? (ModifierItem.paints_read _))

/-- The color of a note that a line writes is as described. -/
def NoteLine.Paints (S : String → Prop) : NoteLine → Prop
  | complete n | start n => Color.Fits S n.color

namespace NoteLine

lemma yields_beside [shape.Honest] (hcolor : color.Yields Unbroken) :
    (beside shape color).Yields fun n => Color.Fits Unbroken n.color := by
  unfold beside
  iterate 8 refine Yields.bind fun _ => ?_
  exact (Color.yields_optional hcolor).bindOf fun c hc => Yields.pure hc

lemma yields_onLink (hcolor : color.Yields Unbroken) :
    (onLink color).Yields fun n => Color.Fits Unbroken n.color := by
  unfold onLink
  iterate 5 refine Yields.bind fun _ => ?_
  exact (Color.yields_optional hcolor).bindOf fun c hc => Yields.pure hc

lemma yields_withText {head : Scan Note} (h : head.Yields fun n => Color.Fits Unbroken n.color) :
    (withText head).Yields (Paints Unbroken) := by
  refine h.bindOf fun n hn => ?_
  iterate 4 refine Yields.bind fun _ => ?_
  exact Yields.pure hn

lemma yields_withoutText {head : Scan Note} (h : head.Yields fun n => Color.Fits Unbroken n.color) :
    (withoutText head).Yields (Paints Unbroken) :=
  h.bindOf fun _ hn => Yields.bind fun _ => Yields.pure hn

lemma yields_freeNote (hcolor : color.Yields Unbroken) :
    (freeNote color).Yields (Paints Unbroken) := by
  unfold freeNote
  iterate 6 refine Yields.bind fun _ => ?_
  exact (Color.yields_optional hcolor).bindOf fun c hc => Yields.bind fun _ => Yields.pure hc

lemma yields_freeNoteStart (hcolor : color.Yields Unbroken) :
    (freeNoteStart color).Yields (Paints Unbroken) := by
  unfold freeNoteStart
  iterate 4 refine Yields.bind fun _ => ?_
  exact (Color.yields_optional hcolor).bindOf fun c hc => Yields.bind fun _ => Yields.pure hc

/-- The color of a note. -/
theorem yields_scan [shape.Honest] (hcolor : color.Yields Unbroken) :
    (scan shape color).Yields (Paints Unbroken) := by
  have hbeside : (beside shape color).Yields fun n => Color.Fits Unbroken n.color :=
    yields_beside hcolor
  have honLink := yields_onLink hcolor
  refine Yields.anyOf ?_
  simp only [List.forall_mem_cons]
  exact ⟨yields_withText hbeside, yields_withoutText hbeside, yields_freeNote hcolor,
    yields_freeNoteStart hcolor, yields_withText honLink, yields_withoutText honLink,
    List.forall_mem_nil _⟩

end NoteLine
end UmlDraw
