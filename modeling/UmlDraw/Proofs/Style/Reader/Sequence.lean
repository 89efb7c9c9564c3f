/-
# The colors of a sequence diagram that is read

Colors come into a sequence diagram with its lines, and notes at messages come to their places only
at the end, when the fragments are closed.

The main statements are

* `Line.paints_of_read?`: the colors of a line;
* `Reader.Paints.step`: a line keeps what is known of the colors so far;
* `Diagram.paints_read`: the colors of the diagram.
-/
import UmlDraw.Proofs.Sequence.Line
import UmlDraw.Proofs.Style.Sequence
import UmlDraw.Proofs.Style.Token
import UmlDraw.Sequence.Reader

namespace UmlDraw
namespace Sequence

open Scan
open Color (Fits fits_none)
open Style (Unbroken)

variable {S : String → Prop}

/-! ### Lines -/

/-- The color of an arrow stands in its modifiers. -/
lemma Arrow.fits_read (text : String) : Fits Unbroken (read text).color := by
  unfold read
  split
  · refine ModifierItem.fits_color? fun c hc => ?_
    obtain ⟨inner, -, hitem⟩ := List.mem_flatMap.1 hc
    exact ModifierItem.paints_read inner c hitem
  · exact fits_none

/-- The colors that a line writes are as described. -/
def Line.Paints (S : String → Prop) : Line → Prop
  | .boxStart _ color | .life _ _ color | .arrowNote _ color _ | .arrowNoteStart _ color
  | .reference _ color _ | .referenceStart _ color | .fragmentStart _ color _ => Fits S color
  | .declare d => Fits S d.color
  | .note head _ | .noteStart head => Fits S head.color
  | .border m => Fits S m.arrow.color ∧ Fits S m.color
  | .message m => Fits S m.arrow.color ∧ Fits S m.color
  | _ => True

namespace Line

/-- A line with a number that cannot be read writes no color. -/
lemma yields_settle {α : Type} {line : α → Line} (h : ∀ a, (line a).Paints S)
    (r : Except NumberError α) : (pure (settle line r) : Scan Line).Yields (Paints S) := by
  cases r with
  | ok a => exact Yields.pure (h a)
  | error e => exact Yields.pure trivial

lemma yields_color? : (Scan.optional Token.color).Yields (Fits Unbroken) :=
  Color.yields_optional Token.yields_color

lemma yields_noteHead : noteHead.Yields fun head => Fits Unbroken head.color := by
  unfold noteHead
  iterate 7 refine Yields.bind fun _ => ?_
  exact yields_color?.bindOf fun c hc => Yields.bind fun _ => Yields.pure hc

lemma yields_arrowNoteHead : arrowNoteHead.Yields fun head => Fits Unbroken head.2 := by
  unfold arrowNoteHead
  iterate 4 refine Yields.bind fun _ => ?_
  exact yields_color?.bindOf fun c hc => Yields.bind fun _ => Yields.pure hc

lemma yields_referenceHead : referenceHead.Yields fun head => Fits Unbroken head.2 := by
  unfold referenceHead
  iterate 2 refine Yields.bind fun _ => ?_
  refine yields_color?.bindOf fun c hc => ?_
  iterate 5 refine Yields.bind fun _ => ?_
  exact Yields.pure hc

lemma yields_messageEnd : messageEnd.Yields fun e => Fits Unbroken e.2.1 := by
  unfold messageEnd
  iterate 3 refine Yields.bind fun _ => ?_
  exact yields_color?.bindOf fun c hc => Yields.bind fun _ => Yields.pure hc

/-- The forms of participants, their events, boxes and fragments. -/
lemma yields_paints_columns : ∀ p ∈ [readBoxStart, readDeclare, readLife, readFragmentStart],
    p.Yields (Paints Unbroken) := by
  simp only [List.forall_mem_cons]
  refine ⟨?_, ?_, ?_, ?_, List.forall_mem_nil _⟩
  · unfold readBoxStart
    iterate 3 refine Yields.bind fun _ => ?_
    exact yields_color?.bindOf fun c hc => Yields.bind fun _ => Yields.pure hc
  · unfold readDeclare
    iterate 10 refine Yields.bind fun _ => ?_
    refine yields_color?.bindOf fun c hc => ?_
    iterate 3 refine Yields.bind fun _ => ?_
    refine yields_settle ?_ _
    exact fun _ => hc
  · unfold readLife
    iterate 4 refine Yields.bind fun _ => ?_
    exact yields_color?.bindOf fun c hc => Yields.bind fun _ => Yields.pure hc
  · unfold readFragmentStart
    iterate 3 refine Yields.bind fun _ => ?_
    refine yields_color?.bindOf fun c hc => ?_
    iterate 2 refine Yields.bind fun _ => ?_
    exact Yields.pure hc

/-- The forms of notes and references. -/
lemma yields_paints_notes : ∀ p ∈ [readNoteAcross, readNote, readNoteStart, readArrowNote,
    readArrowNoteStart, readReference, readReferenceStart], p.Yields (Paints Unbroken) := by
  simp only [List.forall_mem_cons]
  refine ⟨?_, ?_, ?_, ?_, ?_, ?_, ?_, List.forall_mem_nil _⟩
  · unfold readNoteAcross
    iterate 4 refine Yields.bind fun _ => ?_
    refine yields_color?.bindOf fun c hc => Yields.bind fun text => ?_
    cases text with
    | none => exact Yields.pure hc
    | some t => exact Yields.pure hc
  · exact yields_noteHead.bindOf fun _ hhead => Yields.bind fun _ => Yields.pure hhead
  · exact yields_noteHead.bindOf fun _ hhead => Yields.pure hhead
  · exact yields_arrowNoteHead.bindOf fun _ hhead => Yields.bind fun _ => Yields.pure hhead
  · exact yields_arrowNoteHead.bindOf fun _ hhead => Yields.pure hhead
  · exact yields_referenceHead.bindOf fun _ hhead => Yields.bind fun _ => Yields.pure hhead
  · exact yields_referenceHead.bindOf fun _ hhead => Yields.pure hhead

/-- The forms of messages. -/
lemma yields_paints_messages : ∀ p ∈ [readBorderLeft, readBorderRight, readMessage],
    p.Yields (Paints Unbroken) := by
  simp only [List.forall_mem_cons]
  refine ⟨?_, ?_, ?_, List.forall_mem_nil _⟩
  · unfold readBorderLeft
    iterate 6 refine Yields.bind fun _ => ?_
    exact yields_messageEnd.bindOf fun _ hend => Yields.pure ⟨Arrow.fits_read _, hend⟩
  · unfold readBorderRight
    iterate 6 refine Yields.bind fun _ => ?_
    exact yields_messageEnd.bindOf fun _ hend => Yields.pure ⟨Arrow.fits_read _, hend⟩
  · unfold readMessage
    iterate 7 refine Yields.bind fun _ => ?_
    exact yields_messageEnd.bindOf fun _ hend => Yields.pure ⟨Arrow.fits_read _, hend⟩

/-- The forms without colors. -/
lemma yields_paints_uncolored : ∀ p ∈ [readTitle, readAutoNumber, readBoxEnd, readCreate,
    readDivider, readDelay, readSpace, readReply, readFragmentElse, readFragmentEnd],
    p.Yields (Paints Unbroken) := by
  simp only [List.forall_mem_cons]
  refine ⟨?_, ?_, ?_, ?_, ?_, ?_, ?_, ?_, ?_, ?_, List.forall_mem_nil _⟩
  · exact Yields.bind fun _ => Yields.pure trivial
  · unfold readAutoNumber
    iterate 4 refine Yields.bind fun _ => ?_
    refine yields_settle ?_ _
    exact fun _ => trivial
  · unfold readBoxEnd
    iterate 4 refine Yields.bind fun _ => ?_
    exact Yields.pure trivial
  · unfold readCreate
    iterate 4 refine Yields.bind fun _ => ?_
    exact Yields.pure trivial
  · unfold readDivider
    iterate 5 refine Yields.bind fun _ => ?_
    exact Yields.pure trivial
  · unfold readDelay
    iterate 2 refine Yields.bind fun _ => ?_
    exact Yields.pure trivial
  · unfold readSpace
    iterate 4 refine Yields.bind fun _ => ?_
    refine yields_settle ?_ _
    exact fun _ => trivial
  · unfold readReply
    iterate 4 refine Yields.bind fun _ => ?_
    exact Yields.pure trivial
  · unfold readFragmentElse
    iterate 6 refine Yields.bind fun _ => ?_
    exact Yields.pure trivial
  · unfold readFragmentEnd
    iterate 2 refine Yields.bind fun _ => ?_
    exact Yields.pure trivial

/-- The colors of a line. -/
theorem paints_of_read? {s : List Char} {l : Line} (h : read? s = some l) : l.Paints Unbroken := by
  have hcolumns := yields_paints_columns
  have hnotes := yields_paints_notes
  have hmessages := yields_paints_messages
  have huncolored := yields_paints_uncolored
  simp only [List.forall_mem_cons] at hcolumns hnotes hmessages huncolored
  obtain ⟨hboxStart, hdeclare, hlife, hfragmentStart, -⟩ := hcolumns
  obtain ⟨hacross, hnote, hnoteStart, harrowNote, harrowNoteStart, href, hrefStart, -⟩ := hnotes
  obtain ⟨hleft, hright, hmessage, -⟩ := hmessages
  obtain ⟨htitle, hnumber, hboxEnd, hcreate, hdivider, hdelay, hspace, hreply, helse, hend, -⟩ :=
    huncolored
  have hforms : ∀ p ∈ forms, p.Yields (Paints Unbroken) := by
    simp only [forms, List.forall_mem_cons]
    exact ⟨htitle, hnumber, hboxStart, hboxEnd, hdeclare, hcreate, hdivider, hdelay, hspace, hlife,
      hreply, hacross, hnote, hnoteStart, harrowNote, harrowNoteStart, href, hrefStart,
      hfragmentStart, helse, hend, hleft, hright, hmessage, List.forall_mem_nil _⟩
  obtain ⟨p, hp, hread⟩ := List.exists_of_findSome?_eq_some h
  exact (hforms p hp).of_whole hread

end Line

/-! ### Elements -/

/-- The colors of some elements are as described. -/
def AllPaint (S : String → Prop) (elements : List Element) : Prop :=
  ∀ color ∈ colorsOfAll elements, Fits S color

namespace AllPaint

variable {elements : List Element} {e : Element}

lemma nil : AllPaint S [] := by
  unfold AllPaint colorsOfAll
  exact List.forall_mem_nil _

lemma cons_iff :
    AllPaint S (e :: elements) ↔ (∀ color ∈ colorsOf e, Fits S color) ∧ AllPaint S elements := by
  unfold AllPaint
  rw [colorsOfAll]
  exact List.forall_mem_append

/-- Another element at the end. -/
lemma concat (h : AllPaint S elements) (he : ∀ color ∈ colorsOf e, Fits S color) :
    AllPaint S (elements ++ [e]) := by
  induction elements with
  | nil => exact cons_iff.2 ⟨he, nil⟩
  | cons e' rest ih =>
    obtain ⟨he', hrest⟩ := cons_iff.1 h
    exact cons_iff.2 ⟨he', ih hrest⟩

end AllPaint

/-- Another section at the end. -/
lemma fits_colorsOfSections_concat {sections : List (Section Element)} {elements : List Element}
    (h : ∀ color ∈ colorsOfSections sections, Fits S color) (helements : AllPaint S elements)
    (condition : String) :
    ∀ color ∈ colorsOfSections (sections ++ [⟨condition, elements⟩]), Fits S color := by
  induction sections with
  | nil =>
    rw [List.nil_append, colorsOfSections, colorsOfSections, List.append_nil]
    exact helements
  | cons s rest ih =>
    obtain ⟨_, _⟩ := s
    rw [colorsOfSections] at h
    rw [List.cons_append, colorsOfSections]
    obtain ⟨hs, hrest⟩ := List.forall_mem_append.1 h
    exact List.forall_mem_append.2 ⟨hs, ih hrest⟩

/-- The colors of an element without elements of its own. -/
lemma fits_colorsOf_message {m : Message} (harrow : Fits S m.arrow.color)
    (hactivation : Fits S m.activationColor) (hnote : Fits S (m.note.bind ArrowNote.color)) :
    ∀ color ∈ colorsOf (.message m), Fits S color := by
  simp only [colorsOf, plainColors, List.forall_mem_cons]
  exact ⟨harrow, hactivation, hnote, List.forall_mem_nil _⟩

/-! ### Readers -/

/-- The colors of an open fragment are as described. -/
structure OpenFragment.Paints (S : String → Prop) (f : OpenFragment) : Prop where
  before : AllPaint S f.before
  color : Fits S f.color
  sections : ∀ color ∈ colorsOfSections f.sections, Fits S color

lemma OpenFragment.Paints.close {f : OpenFragment} (h : f.Paints S) {elements : List Element}
    (helements : AllPaint S elements) :
    AllPaint S (f.before ++ [Reader.OpenFragment.close f elements]) := by
  refine h.before.concat ?_
  unfold Reader.OpenFragment.close
  rw [colorsOf]
  exact List.forall_mem_cons.2 ⟨h.color, fits_colorsOfSections_concat h.sections helements _⟩

/-- The color of an open block is as described. -/
def OpenBlock.Paints (S : String → Prop) : OpenBlock → Prop
  | .note head => Fits S head.color
  | .arrowNote _ color | .reference _ color => Fits S color

/-- The colors so far are as described. -/
structure Reader.Paints (S : String → Prop) (r : Reader) : Prop where
  participants : Keyed.All (fun p => Fits S p.color) r.participants
  boxes : ∀ b ∈ r.boxes, Fits S b.color
  elements : AllPaint S r.elements
  fragments : ∀ f ∈ r.fragments, f.Paints S
  notes : ∀ x ∈ r.arrowNotes, Fits S x.2.color
  block : ∀ x, r.block = some x → x.1.Paints S

namespace Reader
namespace Paints

variable {r : Reader}

lemma add (h : r.Paints S) {e : Element} (he : ∀ color ∈ colorsOf e, Fits S color) :
    (r.add e).Paints S :=
  { h with elements := h.elements.concat he }

/-- An element without a color is added. -/
lemma addUncolored (h : r.Paints S) {e : Element} (he : colorsOf e = []) : (r.add e).Paints S :=
  h.add (he ▸ List.forall_mem_nil _)

/-- An element with one color is added. -/
lemma addColored (h : r.Paints S) {e : Element} {color : Option String} (he : colorsOf e = [color])
    (hcolor : Fits S color) : (r.add e).Paints S :=
  h.add (he ▸ List.forall_mem_singleton.2 hcolor)

lemma mention (h : r.Paints S) (code : String) : (r.mention code).Paints S := by
  unfold Reader.mention
  split
  · exact h
  · exact { h with participants := h.participants.insert fits_none }

lemma mentionAll (h : r.Paints S) (codes : List String) : (r.mentionAll codes).Paints S :=
  List.foldlRecOn (motive := Reader.Paints S) codes Reader.mention h fun _ hr code _ =>
    hr.mention code

lemma change (h : r.Paints S) (code : String) {f : Participant → Participant}
    (hf : ∀ p, Fits S p.color → Fits S (f p).color) : (r.change code f).Paints S :=
  { h with participants := h.participants.modify hf }

lemma attach (h : r.Paints S) {note : ArrowNote} (hnote : Fits S note.color) :
    (r.attach note).Paints S := by
  unfold Reader.attach
  split
  · exact h
  · exact { h with notes := List.forall_mem_cons.2 ⟨hnote, h.notes⟩ }

lemma opened (h : r.Paints S) {b : OpenBlock} (hb : b.Paints S) (lines : List (List Char)) :
    ({ r with block := some (b, lines) } : Reader).Paints S :=
  { h with block := fun _ hx => Option.some.inj hx ▸ hb }

lemma closeBlock (h : r.Paints S) {b : OpenBlock} (hb : b.Paints S) (text : String) :
    (r.closeBlock b text).Paints S := by
  have hclosed : ({ r with block := none } : Reader).Paints S :=
    { h with block := fun x hx => absurd hx.symm (Option.some_ne_none x) }
  cases b with
  | note head => exact hclosed.addColored rfl hb
  | arrowNote position color => exact hclosed.attach hb
  | reference participants color => exact hclosed.addColored rfl hb

lemma enterBox (h : r.Paints S) (code : String) : (r.enterBox code).Paints S := by
  unfold Reader.enterBox
  split
  · split
    · exact h
    · next box others hboxes =>
      have hall : ∀ b ∈ box :: others, Fits S b.color :=
        fun b hb => h.boxes b (List.mem_reverse.1 (hboxes ▸ hb))
      obtain ⟨hbox, hothers⟩ := List.forall_mem_cons.1 hall
      refine { h with boxes := fun b hb => ?_ }
      rcases List.mem_cons.1 (List.mem_reverse.1 hb) with rfl | hb
      · split
        · exact hbox
        · exact hbox
      · exact hothers b hb
  · exact h

lemma declare (h : r.Paints S) {d : Declaration} (hd : Fits S d.color) : (r.declare d).Paints S := by
  have hdeclared := (h.mention d.code).change d.code (f := fun p =>
    { p with
      displayName := d.displayName, kind := d.kind
      stereotype := d.stereotype.or p.stereotype, color := d.color.or p.color
      order := d.order.or p.order, isCreated := d.isCreated || p.isCreated })
    fun p hp => hd.or hp
  unfold Reader.declare
  dsimp only
  split
  · exact (hdeclared.addColored rfl fits_none).enterBox _
  · exact hdeclared.enterBox _

lemma closeFragment (h : r.Paints S) : r.closeFragment.Paints S := by
  have hfragments := h.fragments
  unfold Reader.closeFragment
  split
  · exact h
  · next f rest hopen =>
    obtain ⟨hf, hrest⟩ := List.forall_mem_cons.1 (hopen ▸ hfragments)
    exact { h with elements := hf.close h.elements, fragments := hrest }

lemma splitFragment (h : r.Paints S) (condition : String) : (r.splitFragment condition).Paints S := by
  have hfragments := h.fragments
  unfold Reader.splitFragment
  split
  · exact h
  · next f rest hopen =>
    obtain ⟨hf, hrest⟩ := List.forall_mem_cons.1 (hopen ▸ hfragments)
    have hsplit : ({ f with
        sections := f.sections ++ [⟨f.condition, r.elements⟩]
        condition := condition } : OpenFragment).Paints S :=
      { hf with sections := fits_colorsOfSections_concat hf.sections h.elements _ }
    exact { h with elements := .nil, fragments := List.forall_mem_cons.2 ⟨hsplit, hrest⟩ }

lemma openFragment (h : r.Paints S) (kind label : String) {color : Option String}
    (hcolor : Fits S color) : (r.openFragment kind color label).Paints S := by
  have hopen : (⟨r.elements, kind, label, color, [], label⟩ : OpenFragment).Paints S := by
    refine ⟨h.elements, hcolor, ?_⟩
    rw [colorsOfSections]
    exact List.forall_mem_nil _
  exact { h with elements := .nil, fragments := List.forall_mem_cons.2 ⟨hopen, h.fragments⟩ }

lemma addBorder (h : r.Paints S) {m : BorderLine} (harrow : Fits S m.arrow.color)
    (hcolor : Fits S m.color) : (r.addBorder m).Paints S := by
  refine (h.mention m.participant).addColored rfl ?_
  split
  · exact hcolor
  · exact harrow

lemma addMessage (h : r.Paints S) {m : Message} (hm : ∀ color ∈ colorsOf (.message m), Fits S color) :
    (r.addMessage m).Paints S :=
  { h.add hm with }

/-- The colors of the message of a line. -/
lemma fits_messageOf {m : MessageLine} (harrow : Fits S m.arrow.color) (hcolor : Fits S m.color) :
    ∀ color ∈ colorsOf (.message (messageOf m)), Fits S color := by
  refine fits_colorsOf_message ?_ ?_ fits_none
  · unfold messageOf
    dsimp only
    split
    · exact hcolor
    · split
      · exact harrow
      · exact harrow
  · unfold messageOf
    dsimp only
    split
    · exact hcolor
    · exact fits_none

/-- A line with a meaning adds its colors. -/
lemma apply (h : r.Paints Unbroken) {l : Line} (hl : l.Paints Unbroken) :
    (r.apply l).Paints Unbroken := by
  cases l with
  | title s => exact { h with }
  | autoNumber a => exact h.addUncolored rfl
  | boxStart title color =>
    exact { h with boxes := List.forall_mem_append.2 ⟨h.boxes, List.forall_mem_singleton.2 hl⟩ }
  | boxEnd => exact { h with }
  | declare d => exact h.declare hl
  | create code =>
    refine Paints.addColored (Paints.change (h.mention code) code ?_) rfl fits_none
    exact fun _ hp => hp
  | divider label => exact h.addUncolored rfl
  | delay label => exact h.addUncolored rfl
  | space size => exact h.addUncolored rfl
  | life kind code color => exact (h.mention code).addColored rfl hl
  | reply label =>
    exact h.addMessage (fits_colorsOf_message (Arrow.fits_read _) fits_none fits_none)
  | note head text => exact (h.mentionAll head.participants).addColored rfl hl
  | noteStart head => exact (h.mentionAll head.participants).opened (b := .note head) hl []
  | arrowNote position color text => exact h.attach hl
  | arrowNoteStart position color => exact h.opened (b := .arrowNote position color) hl []
  | reference participants color text => exact (h.mentionAll participants).addColored rfl hl
  | referenceStart participants color =>
    exact (h.mentionAll participants).opened (b := .reference participants color) hl []
  | fragmentStart kind color label => exact h.openFragment kind label hl
  | fragmentElse condition => exact h.splitFragment condition
  | fragmentEnd => exact h.closeFragment
  | border m => exact h.addBorder hl.1 hl.2
  | message m =>
    exact (((h.mention m.left).mention m.right).mentionAll m.multicast).addMessage
      (fits_messageOf hl.1 hl.2)
  | faulty e => exact { h with }

/-- A line keeps what is known of the colors so far. -/
theorem step (h : r.Paints Unbroken) (line : SourceLine) : (r.step line).Paints Unbroken := by
  unfold Reader.step
  split
  · next b lines hblock =>
    have hb : b.Paints Unbroken := h.block _ hblock
    split
    · exact h.closeBlock hb _
    · exact h.opened hb _
  · unfold Reader.readLine
    split
    · exact { h with }
    · split
      · exact h
      · split
        · next l hl => exact h.apply (Line.paints_of_read? hl)
        · exact h

end Paints

/-! ### The end of the text -/

lemma allPaint_unwind {fragments : List OpenFragment} (h : ∀ f ∈ fragments, f.Paints S)
    {elements : List Element} (helements : AllPaint S elements) :
    AllPaint S (unwind fragments elements) := by
  induction fragments generalizing elements with
  | nil => exact helements
  | cons f rest ih =>
    obtain ⟨hf, hrest⟩ := List.forall_mem_cons.1 h
    exact ih hrest (hf.close helements)

variable {notes : List (Nat × ArrowNote)}

/-- The color of the note at a message. -/
lemma fits_lookup (hnotes : ∀ x ∈ notes, Fits S x.2.color) (n : Nat) :
    Fits S ((notes.lookup n).bind ArrowNote.color) := by
  cases hfound : notes.lookup n with
  | none => exact fits_none
  | some note =>
    obtain ⟨_, _, hsplit, -⟩ := List.lookup_eq_some_iff.1 hfound
    exact hnotes (n, note) (hsplit ▸ List.mem_append_right _ List.mem_cons_self)

mutual

lemma fits_annotate (hnotes : ∀ x ∈ notes, Fits S x.2.color) (n : Nat) (e : Element)
    (h : ∀ color ∈ colorsOf e, Fits S color) :
    ∀ color ∈ colorsOf (annotate notes n e).1, Fits S color := by
  cases e with
  | message m =>
    simp only [colorsOf, plainColors, List.forall_mem_cons] at h
    obtain ⟨harrow, hactivation, -⟩ := h
    exact fits_colorsOf_message harrow hactivation (fits_lookup hnotes n)
  | fragment f =>
    obtain ⟨kind, label, color, sections⟩ := f
    rw [colorsOf] at h
    obtain ⟨hcolor, hsections⟩ := List.forall_mem_cons.1 h
    unfold annotate
    dsimp only
    rw [colorsOf]
    exact List.forall_mem_cons.2 ⟨hcolor, fits_annotateSections hnotes n sections hsections⟩
  | _ => exact h

lemma fits_annotateSections (hnotes : ∀ x ∈ notes, Fits S x.2.color) (n : Nat) :
    (sections : List (Section Element)) →
      (∀ color ∈ colorsOfSections sections, Fits S color) →
        ∀ color ∈ colorsOfSections (annotateSections notes n sections).1, Fits S color
  | [], h => h
  | ⟨condition, elements⟩ :: rest, h => by
    rw [colorsOfSections] at h
    obtain ⟨helements, hrest⟩ := List.forall_mem_append.1 h
    unfold annotateSections
    dsimp only
    rw [colorsOfSections]
    exact List.forall_mem_append.2
      ⟨allPaint_annotateAll hnotes n elements helements, fits_annotateSections hnotes _ rest hrest⟩

lemma allPaint_annotateAll (hnotes : ∀ x ∈ notes, Fits S x.2.color) (n : Nat) :
    (elements : List Element) → AllPaint S elements →
      AllPaint S (annotateAll notes n elements).1
  | [], h => h
  | e :: rest, h => by
    obtain ⟨he, hrest⟩ := AllPaint.cons_iff.1 h
    unfold annotateAll
    exact AllPaint.cons_iff.2 ⟨fits_annotate hnotes n e he,
      allPaint_annotateAll hnotes _ rest hrest⟩

end

end Reader

/-- The colors of a sequence diagram that is read hold no semicolons. -/
theorem Diagram.paints_read {text : String} {d : Diagram} (h : read text = .ok d) :
    d.Paints Unbroken := by
  have hstart : ({} : Reader).Paints Unbroken :=
    ⟨Keyed.all_empty, List.forall_mem_nil _, .nil, List.forall_mem_nil _, List.forall_mem_nil _,
      fun x hx => absurd hx.symm (Option.some_ne_none x)⟩
  have hr := List.foldlRecOn (motive := Reader.Paints Unbroken) (Source.lines text) Reader.step
    hstart fun r hr line _ => hr.step line
  obtain ⟨-, rfl⟩ := Fault.check_eq_ok_iff.1 h
  exact ⟨hr.participants,
    Reader.allPaint_annotateAll hr.notes 0 _ (Reader.allPaint_unwind hr.fragments hr.elements),
    hr.boxes⟩

end Sequence
end UmlDraw
