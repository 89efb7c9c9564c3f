/-
# Notes and references as they are written

A note and a reference name their participants in a list.  Behind the list stand a color and a text,
or the text follows on lines of its own.  The two cases are told apart by the colon: without a text
there is none, but within quotation marks.

The main statements are

* `Sequence.NoteText.takes_noteHead` and `Sequence.ReferenceText.takes_referenceHead`: what stands
  before the text;
* `Sequence.NoteText.whole_chars` and `Sequence.ReferenceText.whole_chars`: the whole line, if the text
  stands on it;
* `Sequence.NoteText.whole_start` and `Sequence.ReferenceText.whole_start`: the whole line, if it does
  not.
-/
import UmlDraw.Proofs.Sequence.MessageForm
import UmlDraw.Proofs.Text.Consumed
import UmlDraw.Proofs.Text.Keyword

namespace UmlDraw
namespace Sequence

open Scan

/-! ### Words that may be names -/

namespace Operand

/-- What is left of a participant behind some characters of a name does not begin with a blank. -/
lemma not_isBlank_of_append {o : Operand} {x a : List Char} {d : Char}
    (h : o.chars = x ++ d :: a) (hne : x ≠ []) (hx : ∀ c ∈ x, Line.isNameChar c = true) :
    Letter.isBlank d = false := by
  cases o with
  | plain name ne_nil word =>
    have hname : name = x ++ d :: a := h
    exact Line.isBlank_of_isNameChar (word d (by simp [hname]))
  | quoted name ne_nil closed =>
    obtain ⟨c, x, rfl⟩ := List.exists_cons_of_ne_nil hne
    have hc := hx c (List.mem_cons_self ..)
    rw [← (List.cons.inj h).1] at hc
    cases hc

/-- A word in front of a participant is not read where the participant stands alone, even if its
name is the word. -/
lemma fails_word {α γ : Type} {p : Scan α} {f : α → Scan γ}
    (hp : p.Cuts fun x _ _ => x ≠ [] ∧ ∀ c ∈ x, Line.isNameChar c = true)
    (hf : ∀ a u, (∀ c ∈ u.head?, c ≠ '"' ∧ Line.isNameChar c = false) → (f a).Fails u)
    (o : Operand) {gap t : List Char} (hgap : ∀ c ∈ gap, Letter.isBlank c = true)
    (ht : ∀ c ∈ t.head?, c ≠ '"' ∧ Line.isNameChar c = false ∧ Letter.isBlank c = false) :
    (do
      let a ← p
      Scan.blanks1
      f a : Scan γ).Fails (o.chars ++ (gap ++ t)) := by
  intro β next
  by_contra hsome
  obtain ⟨b, hb⟩ := Option.ne_none_iff_exists'.1 hsome
  obtain ⟨x, r, u, hx, ⟨hne, hword⟩, hrest⟩ := hp.of_bind hb
  have hbehind : (Scan.blanks1 >>= fun _ => f r).Fails (gap ++ t) := by
    refine fails_skip1_bind hgap (fun c hc => (ht c hc).2.2)
      (hf r t fun c hc => ⟨(ht c hc).1, (ht c hc).2.1⟩) fun d v hd => hf r (d :: v) ?_
    intro c hc
    obtain rfl : d = c := Option.some.inj hc
    refine ⟨?_, Line.isNameChar_of_isBlank hd⟩
    rintro rfl
    cases hd
  have hu : u ≠ gap ++ t := by
    rintro rfl
    rw [hbehind] at hrest
    cases hrest
  rcases List.append_eq_append_iff.1 hx with ⟨a, rfl, ha⟩ | ⟨a, ha, rfl⟩
  · cases a with
    | nil => exact hu ha.symm
    | cons c a =>
      have hc := Line.not_isNameChar_gap hgap (fun c hc => (ht c hc).2.1) c (by rw [ha]; rfl)
      rw [hword c (by simp)] at hc
      cases hc
  · cases a with
    | nil => exact hu rfl
    | cons d a =>
      have hd := not_isBlank_of_append ha hne hword
      have hfails : (Scan.blanks1).Fails (d :: a ++ (gap ++ t)) :=
        (fails_satisfy fun c hc => Option.some.inj hc ▸ hd).bind _
      rw [hfails.bind _] at hrest
      cases hrest

end Operand

lemma Line.isNameChar_of_spells {v : String} {x : List Char}
    (hv : v.toList ≠ [] ∧ ∀ k ∈ v.toList, Letter.isWord k = true) (h : Spells v x) :
    x ≠ [] ∧ ∀ c ∈ x, isNameChar c = true := by
  refine ⟨h.ne_nil hv.1, fun c hc => ?_⟩
  rw [isNameChar, isWord_of_spelled hv.2 h c hc]
  rfl

/-! ### Lists of participants -/

/-- A list of participants as it is written. -/
structure ListText where
  /-- The first participant. -/
  first : Operand
  /-- The others, each behind a comma. -/
  others : List Listed

namespace ListText

/-- The characters of the list. -/
def chars (l : ListText) : List Char :=
  l.first.chars ++ Listed.all ',' l.others

/-- The participants. -/
def operands (l : ListText) : List Operand :=
  l.first :: l.others.map Listed.operand

/-- The codes of the participants. -/
def codes (l : ListText) : List String :=
  l.operands.map Operand.code

variable (l : ListText) {s : List Char}

lemma participantsOf_chars : Line.participantsOf (String.ofList l.chars) = l.codes := by
  rw [chars, Listed.participantsOf_list, codes, operands, List.map_cons, List.map_map]
  rfl

lemma not_isBlank_head (s : List Char) : ∀ c ∈ (l.chars ++ s).head?, Letter.isBlank c = false := by
  rw [chars, List.append_assoc]
  exact l.first.not_isBlank_head_chars _

/-- A list is captured up to a color, a text or the end of the line. -/
lemma takes_writtenParticipants (gap : Blanks) (hs : ∀ c ∈ s.head?, c = '#' ∨ c = ':') :
    Line.writtenParticipants.Takes (l.chars ++ (gap.chars ++ s)) (String.ofList l.chars)
      (gap.chars ++ s) := by
  refine Listed.takes_writtenParticipants l.first l.others gap.blank ?_
    (Line.not_isNameChar_gap gap.blank ?_)
  · intro c hc
    rcases hs c hc with rfl | rfl <;> decide
  · intro c hc
    rcases hs c hc with rfl | rfl <;> rfl

/-- Where a list begins with the word `of`, the word is a participant, because none follows it
without a comma. -/
lemma fails_ofWord {γ : Type} (f : String → Scan γ) (gap : Blanks)
    (hs : ∀ c ∈ s.head?, c = '#' ∨ c = ':') :
    (do
      Scan.keyword "of"
      Scan.blanks1
      let parts ← Line.writtenParticipants
      f parts : Scan γ).Fails (l.chars ++ (gap.chars ++ s)) := by
  obtain ⟨gap', t, hbehind, hgap', ht⟩ :=
    Listed.exists_gap_all ',' s gap.blank l.others
  have hstop : ∀ c ∈ t.head?, c ≠ '"' ∧ Line.isNameChar c = false ∧ Letter.isBlank c = false := by
    intro c hc
    rcases ht c hc with rfl | hc
    · decide
    · rcases hs c hc with rfl | rfl <;> decide
  rw [chars, List.append_assoc, hbehind]
  refine Operand.fails_word (f := fun _ => do let parts ← Line.writtenParticipants; f parts)
    ((cuts_keyword "of").imp fun _ _ _ => Line.isNameChar_of_spells (by decide)) ?_ l.first
    hgap' hstop
  exact fun _ u hu => (Fails.captured ((Operand.fails_participant hu).bind _)).bind _

/-- The same behind blanks. -/
lemma fails_gap_ofWord {γ : Type} (f : String → Scan γ) (gap : Blanks1) (gap' : Blanks)
    (hs : ∀ c ∈ s.head?, c = '#' ∨ c = ':') :
    ((do Scan.blanks1; Scan.keyword "of" : Scan Unit) >>= fun _ => do
      Scan.blanks1
      let parts ← Line.writtenParticipants
      f parts : Scan γ).Fails (gap.chars ++ (l.chars ++ (gap'.chars ++ s))) := by
  refine Fails.assoc (fails_skip1_bind gap.blank (l.not_isBlank_head _) (l.fails_ofWord f gap' hs)
    fun d u hd => ?_)
  refine (fails_keyword_of_head (by decide) fun c hc => ?_).bind _
  exact Letter.isWord_of_isBlank (Option.some.inj hc ▸ hd)

end ListText

/-! ### Notes -/

namespace Line

/-- The text behind a colon is read without the blanks in front. -/
lemma takes_textAtEnd {e : LabelEnd} {l : List Char} (h : e.label = some l) :
    textAtEnd.Takes e.labelChars (String.ofList (Chars.trimLeft l)) [] := by
  rw [LabelEnd.labelChars_some h]
  exact (takes_char ':' l).bind ((takes_skip_dropWhile _ l).bind
    ((LabelEnd.takes_inLine h).bind ((takes_ahead rfl).bind (takes_pure _ []))))

end Line

/-- A line of a note beside or over participants as it is written. -/
structure NoteText where
  /-- The word for the shape. -/
  shape : WrittenWord Line.noteShapes
  /-- The blanks behind it. -/
  shapeGap : Blanks1
  /-- The word for the side. -/
  side : WrittenWord ["left", "right", "over"]
  /-- The word `of`, with the blanks before it. -/
  ofWord : Option (Blanks1 × WrittenWord ["of"])
  /-- The blanks before the participants. -/
  listGap : Blanks1
  /-- The participants. -/
  list : ListText
  /-- The blanks behind them. -/
  endGap : Blanks
  /-- A color and a text; without a text, the note goes on over several lines. -/
  ending : LineEnd

namespace NoteText

variable (w : NoteText)

/-- The characters of the word `of`, with the blanks before it. -/
def ofChars : List Char :=
  (w.ofWord.map fun x => x.1.chars ++ x.2.chars).getD []

/-- The characters of the line. -/
def chars : List Char :=
  w.shape.chars ++ (w.shapeGap.chars ++ (w.side.chars ++ (w.ofChars ++ (w.listGap.chars ++
    (w.list.chars ++ (w.endGap.chars ++ (w.ending.colorChars ++ w.ending.labelChars)))))))

/-- What the line says before the text. -/
def head : NoteHead where
  participants := w.list.codes
  position := Side.ofWord w.side.word
  shape := w.shape.word
  color := w.ending.color.map fun x => x.1.text
  isAcross := false

/-- What the line says. -/
def line : Line :=
  match w.ending.label with
  | none => .noteStart w.head
  | some l => .note w.head (String.ofList (Chars.trimLeft l))

/-- What stands before the text is read. -/
lemma takes_noteHead : Line.noteHead.Takes w.chars w.head w.ending.labelChars := by
  have hending :
      ∀ c ∈ (w.ending.colorChars ++ w.ending.labelChars).head?, Letter.isBlank c = false := by
    intro c hc
    rcases w.ending.head_colorChars c hc with rfl | rfl <;> rfl
  have hlabel : ∀ c ∈ w.ending.labelChars.head?, Letter.isBlank c = false :=
    fun c hc => w.ending.head_labelChars c hc ▸ rfl
  obtain ⟨gap, hgap, hcolor⟩ := w.ending.exists_takes_color
  have hlist : (do
      Scan.blanks1
      let parts ← Line.writtenParticipants
      Scan.blanks
      let c ← Scan.optional Token.color
      Scan.blanks
      pure ⟨Line.participantsOf parts, Side.ofWord w.side.word, w.shape.word, c, false⟩ :
        Scan NoteHead).Takes (w.listGap.chars ++ (w.list.chars ++ (w.endGap.chars ++
          (w.ending.colorChars ++ w.ending.labelChars)))) w.head w.ending.labelChars := by
    rw [head, ← w.list.participantsOf_chars]
    exact (w.listGap.takes (w.list.not_isBlank_head _)).bind
      ((w.list.takes_writtenParticipants w.endGap w.ending.head_colorChars).bind
        ((w.endGap.takes hending).bind (hcolor.bind ((takes_skip hgap hlabel).bind
          (takes_pure _ _)))))
  refine (w.shape.forced_oneOf (by decide) _).takes.bind
    ((w.shapeGap.takes (w.side.not_isBlank_head (by decide) _)).bind
      ((w.side.forced_oneOf (by decide) _).takes.bind ?_))
  unfold ofChars
  cases hof : w.ofWord with
  | some x =>
    rw [Option.map_some, Option.getD_some, List.append_assoc]
    exact Takes.bind (Takes.optional ((x.1.takes (x.2.not_isBlank_head (by decide) _)).bind
      (x.2.forced_keyword _).takes)) hlist
  | none =>
    exact Takes.optional_bind_none
      (w.list.fails_gap_ofWord _ w.listGap w.endGap w.ending.head_colorChars) hlist

end NoteText

/-! ### Lines without a text -/

open Chars (Closed Encloses)

lemma encloses_of_isWord {x : List Char} (h : ∀ c ∈ x, Letter.isWord c = true) :
    Encloses ':' x := by
  refine .of_forall fun c hc => ⟨?_, ?_⟩
  · rintro rfl
    exact absurd (h _ hc) (by decide)
  · rintro rfl
    exact absurd (h _ hc) (by decide)

lemma encloses_of_isBlank {x : List Char} (h : ∀ c ∈ x, Letter.isBlank c = true) :
    Encloses ':' x := by
  refine .of_forall fun c hc => ⟨?_, ?_⟩
  · rintro rfl
    exact absurd (h _ hc) (by decide)
  · rintro rfl
    exact absurd (h _ hc) (by decide)

lemma Operand.encloses_chars (o : Operand) : Encloses ':' o.chars := by
  cases o with
  | quoted name ne_nil closed => exact .quoted closed
  | plain name ne_nil word =>
    exact .of_forall fun c hc =>
      ⟨Line.ne_of_isNameChar (word c hc) (by decide), Line.ne_of_isNameChar (word c hc) (by decide)⟩

lemma Listed.encloses_all (ls : List Listed) : Encloses ':' (Listed.all ',' ls) := by
  induction ls with
  | nil => exact .nil
  | cons l ls ih =>
    have hchars : l.chars ',' = l.before ++ ([','] ++ (l.behind ++ l.operand.chars)) := by
      simp [Listed.chars]
    rw [Listed.all, List.flatMap_cons, hchars]
    exact ((encloses_of_isBlank l.before_blank).append ((Encloses.of_forall (by decide)).append
      ((encloses_of_isBlank l.behind_blank).append l.operand.encloses_chars))).append ih

lemma ListText.encloses_chars (l : ListText) : Encloses ':' l.chars :=
  l.first.encloses_chars.append (Listed.encloses_all l.others)

lemma WrittenColor.encloses_chars (w : WrittenColor) : Encloses ':' w.chars := by
  have hsecond : Encloses ':' ((w.second.map fun x => x.1 :: x.2).getD []) := by
    cases hx : w.second with
    | none => exact .nil
    | some x =>
      obtain ⟨hsep, -, hword⟩ := w.second_mem x hx
      have hall : ∀ c ∈ ['-', '\\', '|', '/'], c ≠ '"' ∧ c ≠ ':' := by decide
      exact (Encloses.of_forall (List.forall_mem_singleton.2 (hall _ hsep))).append
        (encloses_of_isWord hword)
  exact (Encloses.of_forall (x := ['#']) (by decide)).append
    ((encloses_of_isWord w.word_isWord).append hsecond)

lemma LineEnd.encloses_colorChars (e : LineEnd) : Encloses ':' e.colorChars := by
  unfold colorChars
  cases hcolor : e.color with
  | none => exact .nil
  | some x => exact x.1.encloses_chars.append (encloses_of_isBlank (e.color_blank x hcolor))

namespace Line

lemma closes_blanks : Scan.blanks.Closes :=
  (Cuts.skip _).imp fun _ _ _ h => (encloses_of_isBlank h).closed

lemma closes_blanks1 : Scan.blanks1.Closes :=
  (Cuts.skip1 _).imp fun _ _ _ h => (encloses_of_isBlank h.2).closed

lemma closes_participant : participant.Closes := by
  refine Operand.cuts_participant.imp ?_
  rintro _ _ _ ⟨o, rfl, -⟩
  exact o.encloses_chars.closed

lemma closes_writtenParticipants : writtenParticipants.Closes := by
  refine Closes.captured (closes_participant.bind fun _ => Closes.repeated ?_)
  exact closes_blanks.bind fun _ => (Closes.of_within (Within.char (by decide))).bind fun _ =>
    closes_blanks.bind fun _ => closes_participant

lemma closes_color : (Scan.optional Token.color).Closes := by
  refine cuts_color.imp ?_
  rintro _ _ _ ⟨color, rfl⟩
  cases color with
  | none => exact Chars.closed_nil
  | some w => exact w.encloses_chars.closed

lemma closes_noteHead : noteHead.Closes := by
  have hof : (Scan.optional do Scan.blanks1; Scan.keyword "of" : Scan (Option Unit)).Closes :=
    (closes_blanks1.bind fun _ => .of_within (Within.keyword_ne (by decide))).optional
  exact (Closes.of_within (Within.oneOf_ne (by decide))).bind fun _ => closes_blanks1.bind fun _ =>
    (Closes.of_within (Within.oneOf_ne (by decide))).bind fun _ => hof.bind fun _ =>
      closes_blanks1.bind fun _ => closes_writtenParticipants.bind fun _ =>
        closes_blanks.bind fun _ => closes_color.bind fun _ => closes_blanks.bind fun _ => .pure _

lemma closes_referenceHead : referenceHead.Closes :=
  (Closes.of_within (Within.keyword_ne (by decide))).bind fun _ => closes_blanks.bind fun _ =>
    closes_color.bind fun _ => closes_blanks1.bind fun _ =>
      (Closes.of_within (Within.keyword_ne (by decide))).bind fun _ => closes_blanks1.bind fun _ =>
        closes_writtenParticipants.bind fun _ => closes_blanks.bind fun _ => .pure _

/-- A line that encloses each colon in quotation marks has no text behind a colon. -/
lemma whole_eq_none_of_encloses {α : Type} {p : Scan α} {f : α → Scan Line} {s : List Char}
    (hp : p.Closes) (hf : ∀ a, ∃ g, f a = textAtEnd >>= g) (h : Encloses ':' s) :
    (p >>= f).whole s = none := by
  by_contra hsome
  obtain ⟨l, hl⟩ := Option.ne_none_iff_exists'.1 hsome
  obtain ⟨x, a, t, rfl, hx, hrest⟩ := hp.of_bind hl
  obtain ⟨g, hg⟩ := hf a
  rw [hg] at hrest
  obtain ⟨_, _, u, rfl, rfl, -⟩ := (Cuts.char ':').of_bind hrest
  exact h.ne_append hx (by decide) u rfl

end Line

namespace NoteText

variable (w : NoteText)

lemma encloses_chars (h : w.ending.label = none) : Encloses ':' w.chars := by
  have hof : Encloses ':' w.ofChars := by
    unfold ofChars
    cases w.ofWord with
    | none => exact .nil
    | some x =>
      exact (encloses_of_isBlank x.1.blank).append
        (encloses_of_isWord (x.2.isWord_of_mem (by decide)))
  rw [chars, LabelEnd.labelChars_none h, List.append_nil]
  exact (encloses_of_isWord (w.shape.isWord_of_mem (by decide))).append
    ((encloses_of_isBlank w.shapeGap.blank).append
      ((encloses_of_isWord (w.side.isWord_of_mem (by decide))).append
        (hof.append ((encloses_of_isBlank w.listGap.blank).append (w.list.encloses_chars.append
          ((encloses_of_isBlank w.endGap.blank).append w.ending.encloses_colorChars))))))

/-- A note with a text. -/
theorem whole_chars {l : List Char} (h : w.ending.label = some l) :
    Line.readNote.whole w.chars = some w.line := by
  have hread : Line.readNote.Takes w.chars (.note w.head (String.ofList (Chars.trimLeft l))) [] :=
    w.takes_noteHead.bind ((Line.takes_textAtEnd h).bind (takes_pure _ []))
  rw [hread.whole, line, h]

/-- A note that goes on over several lines. -/
theorem whole_start (h : w.ending.label = none) :
    Line.readNote.whole w.chars = none ∧ Line.readNoteStart.whole w.chars = some w.line := by
  have hread : Line.readNoteStart.Takes w.chars (.noteStart w.head) w.ending.labelChars :=
    w.takes_noteHead.bind (takes_pure _ _)
  rw [LabelEnd.labelChars_none h] at hread
  rw [hread.whole, line, h]
  exact ⟨Line.whole_eq_none_of_encloses Line.closes_noteHead (fun _ => ⟨_, rfl⟩)
    (w.encloses_chars h), rfl⟩

end NoteText

/-! ### References -/

/-- A line of a reference as it is written. -/
structure ReferenceText where
  /-- The word for a reference. -/
  word : WrittenWord ["ref"]
  /-- A color, with the blanks before it. -/
  color : Option (Blanks × WrittenColor)
  /-- The blanks before the word for the place. -/
  placeGap : Blanks1
  /-- The word for the place. -/
  place : WrittenWord ["over"]
  /-- The blanks before the participants. -/
  listGap : Blanks1
  /-- The participants. -/
  list : ListText
  /-- The blanks behind them. -/
  endGap : Blanks
  /-- A text; without it, the reference goes on over several lines. -/
  ending : LabelEnd

namespace ReferenceText

variable (w : ReferenceText)

/-- The characters of the color, with the blanks before it. -/
def colorChars : List Char :=
  (w.color.map fun x => x.1.chars ++ x.2.chars).getD []

/-- The characters of the line. -/
def chars : List Char :=
  w.word.chars ++ (w.colorChars ++ (w.placeGap.chars ++ (w.place.chars ++ (w.listGap.chars ++
    (w.list.chars ++ (w.endGap.chars ++ w.ending.labelChars))))))

/-- What the line says. -/
def line : Line :=
  match w.ending.label with
  | none => .referenceStart w.list.codes (w.color.map fun x => x.2.text)
  | some l =>
    .reference w.list.codes (w.color.map fun x => x.2.text) (String.ofList (Chars.trimLeft l))

/-- The participants are read behind the word for the place. -/
lemma takes_over (color : Option String) : (do
    Scan.keyword "over"
    Scan.blanks1
    let parts ← Line.writtenParticipants
    Scan.blanks
    pure (Line.participantsOf parts, color) : Scan (List String × Option String)).Takes
      (w.place.chars ++ (w.listGap.chars ++ (w.list.chars ++ (w.endGap.chars ++ w.ending.labelChars))))
        (w.list.codes, color) w.ending.labelChars := by
  have hlabel : ∀ c ∈ w.ending.labelChars.head?, c = '#' ∨ c = ':' :=
    fun c hc => .inr (w.ending.head_labelChars c hc)
  rw [← w.list.participantsOf_chars]
  exact (w.place.forced_keyword _).takes.bind ((w.listGap.takes (w.list.not_isBlank_head _)).bind
    ((w.list.takes_writtenParticipants w.endGap hlabel).bind ((w.endGap.takes fun c hc => by
      rw [w.ending.head_labelChars c hc]; rfl).bind (takes_pure _ _))))

/-- What stands before the text is read.  Without a color the blanks behind the first word are taken
back but for one, because the word for the place stands behind a blank of its own. -/
lemma takes_referenceHead : Line.referenceHead.Takes w.chars
    (w.list.codes, w.color.map fun x => x.2.text) w.ending.labelChars := by
  refine (w.word.forced_keyword _).takes.bind ?_
  have hover := w.place.not_isBlank_head (by decide)
    (w.listGap.chars ++ (w.list.chars ++ (w.endGap.chars ++ w.ending.labelChars)))
  unfold colorChars
  cases w.color with
  | some x =>
    rw [Option.map_some, Option.getD_some, Option.map_some, List.append_assoc]
    have hcolor : ∀ c ∈ (x.2.chars ++ (w.placeGap.chars ++ (w.place.chars ++ (w.listGap.chars ++
        (w.list.chars ++ (w.endGap.chars ++ w.ending.labelChars)))))).head?,
          Letter.isBlank c = false :=
      fun c hc => Option.some.inj hc ▸ rfl
    refine (x.1.takes hcolor).bind ((Takes.optional (x.2.takes_color ?_)).bind
      ((w.placeGap.takes hover).bind (w.takes_over _)))
    obtain ⟨d, gap, hgap⟩ := List.exists_cons_of_ne_nil w.placeGap.ne_nil
    rw [hgap]
    exact fun c hc => .inl (w.placeGap.blank c (hgap ▸ Option.some.inj hc ▸ List.mem_cons_self ..))
  | none =>
    obtain ⟨gap, d, hgap⟩ := (List.eq_nil_or_concat' w.placeGap.chars).resolve_left w.placeGap.ne_nil
    have hblank := w.placeGap.blank
    rw [hgap, List.forall_mem_append, List.forall_mem_singleton] at hblank
    have hd : Letter.isBlank d = true := hblank.2
    rw [Option.map_none, Option.getD_none, Option.map_none, List.nil_append, hgap,
      List.append_assoc]
    refine takes_skip_last hblank.1 hd hover (Fails.optional_bind ((Line.fails_color ?_).bind _)
      (Fails.bind ((fails_satisfy hover).bind _) _)) ((Line.fails_color ?_).optional.bind
        ((takes_skip1 (x := [d]) (List.cons_ne_nil _ _) (List.forall_mem_singleton.2 hd) hover).bind
          (w.takes_over none)))
    · rintro c hc rfl
      have hword := w.place.isWord_head (by decide) _ _ hc
      exact absurd hword (by decide)
    · rintro c hc rfl
      rw [Option.some.inj hc] at hd
      cases hd

lemma encloses_chars (h : w.ending.label = none) : Encloses ':' w.chars := by
  have hcolor : Encloses ':' w.colorChars := by
    unfold colorChars
    cases w.color with
    | none => exact .nil
    | some x => exact (encloses_of_isBlank x.1.blank).append x.2.encloses_chars
  rw [chars, LabelEnd.labelChars_none h, List.append_nil]
  exact (encloses_of_isWord (w.word.isWord_of_mem (by decide))).append (hcolor.append
    ((encloses_of_isBlank w.placeGap.blank).append
      ((encloses_of_isWord (w.place.isWord_of_mem (by decide))).append
        ((encloses_of_isBlank w.listGap.blank).append
          (w.list.encloses_chars.append (encloses_of_isBlank w.endGap.blank))))))

/-- A reference with a text. -/
theorem whole_chars {l : List Char} (h : w.ending.label = some l) :
    Line.readReference.whole w.chars = some w.line := by
  have hread : Line.readReference.Takes w.chars (.reference w.list.codes
      (w.color.map fun x => x.2.text) (String.ofList (Chars.trimLeft l))) [] :=
    w.takes_referenceHead.bind ((Line.takes_textAtEnd h).bind (takes_pure _ []))
  rw [hread.whole, line, h]

/-- A reference that goes on over several lines. -/
theorem whole_start (h : w.ending.label = none) :
    Line.readReference.whole w.chars = none ∧
      Line.readReferenceStart.whole w.chars = some w.line := by
  have hread : Line.readReferenceStart.Takes w.chars (.referenceStart w.list.codes
      (w.color.map fun x => x.2.text)) w.ending.labelChars :=
    w.takes_referenceHead.bind (takes_pure _ _)
  rw [LabelEnd.labelChars_none h] at hread
  rw [hread.whole, line, h]
  exact ⟨Line.whole_eq_none_of_encloses Line.closes_referenceHead (fun _ => ⟨_, rfl⟩)
    (w.encloses_chars h), rfl⟩

end ReferenceText

end Sequence
end UmlDraw
