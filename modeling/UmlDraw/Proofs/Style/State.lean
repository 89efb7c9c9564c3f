/-
# The styles of state diagrams

The styles of a drawing take nothing from the text but colors, and the diagram has its colors from
the lines of the text.

The main statements are

* `State.Diagram.built_sketch`: what a diagram is drawn with;
* `Line.paints_of_read?`: the colors of a line;
* `Reader.Paints.step`: a line keeps what is known of the colors so far;
* `Diagram.paints_read`: the colors of the diagram.
-/
import UmlDraw.Proofs.State.Layout
import UmlDraw.Proofs.Style.Sketch
import UmlDraw.Proofs.Style.Token
import UmlDraw.Proofs.Text.Replaced
import UmlDraw.State.Drawing
import UmlDraw.State.Reader

namespace UmlDraw
namespace State

open Sketch Style

variable {S : String → Prop}

/-- The colors of an element are as described. -/
structure Element.Paints (S : String → Prop) (e : Element) : Prop where
  fill : Color.Fits S e.color
  border : Color.Fits S e.border.color

/-- The colors of a diagram are as described. -/
structure Diagram.Paints (S : String → Prop) (d : Diagram) : Prop where
  elements : Keyed.All (Element.Paints S) d.elements
  transitions : ∀ t ∈ d.transitions, Color.Fits S t.stroke.color
  notes : ∀ n ∈ d.notes, Color.Fits S n.color

lemma Diagram.paints_any (d : Diagram) : d.Paints fun _ => True where
  elements := fun _ _ _ => ⟨Color.fits_any, Color.fits_any⟩
  transitions := fun _ _ => Color.fits_any
  notes := fun _ _ => Color.fits_any

lemma knows_borderEntries {e : Element} (h : e.Paints S) : Knows S (borderEntries e) := by
  have hstyle : Knows S ((e.border.style.map BorderStyle.entries).getD []) := by
    cases e.border.style with
    | none => exact .nil
    | some style =>
      cases style
      all_goals
        dsimp only [Option.map_some, Option.getD_some, BorderStyle.entries]
        repeat constructor
  exact ((h.fill.entry (by decide)).append (h.border.entry (by decide))).append hstyle

lemma isKnown_plainStyle {e : Element} (h : e.Paints S) : (plainStyle e).IsKnown S :=
  (knows_of (by repeat constructor)).update (knows_borderEntries h)

lemma isKnown_describedStyle {e : Element} (h : e.Paints S) : (describedStyle e).IsKnown S :=
  (knows_of (by repeat constructor)).update (knows_borderEntries h)

lemma isKnown_compositeStyle {e : Element} (h : e.Paints S) : (compositeStyle e).IsKnown S := by
  have hfill := h.fill.fillColor "none" (.fillColor (by decide))
  refine Knows.update (knows_of ?_) (h.border.entry (by decide))
  repeat first | exact hfill | constructor

lemma isKnown_dotStyle : dotStyle.IsKnown S :=
  Knows.update (Knows.update (knows_of (by repeat constructor)) .nil) (by repeat constructor)

lemma isKnown_ringStyle : ringStyle.IsKnown S :=
  Knows.update (Knows.update (knows_of (by repeat constructor)) (by repeat constructor))
    (by repeat constructor)

lemma isKnown_historyStyle : historyStyle.IsKnown S :=
  Knows.update (Knows.update (knows_of (by repeat constructor)) (by repeat constructor))
    (by repeat constructor)

lemma isKnown_choiceStyle : choiceStyle.IsKnown S :=
  knows_of (by repeat constructor)

lemma isKnown_barStyle : barStyle.IsKnown S :=
  knows_of (by repeat constructor)

lemma isKnown_descriptionStyle : descriptionStyle.IsKnown S :=
  knows_of (by repeat constructor)

lemma isKnown_separatorStyle : separatorStyle.IsKnown S :=
  knows_of (by repeat constructor)

lemma isKnown_titleStyle : titleStyle.IsKnown S :=
  knows_of (by repeat constructor)

lemma isKnown_transitionStyle {t : Transition} (h : Color.Fits S t.stroke.color) :
    (transitionStyle t).IsKnown S := by
  have hline : Knows S ((t.stroke.line.map lineEntries).getD []) := by
    cases t.stroke.line with
    | none => exact .nil
    | some line =>
      cases line
      all_goals
        dsimp only [Option.map_some, Option.getD_some, lineEntries]
        repeat constructor
  have hends : Knows S (endEntries t) := by
    refine Knows.append ?_ ?_
    · split
      · repeat constructor
      · exact .nil
    · split
      · repeat constructor
      · exact .nil
  exact (knows_of (by repeat constructor)).update
    ((hline.append (h.entry (by decide))).append hends)

lemma built_drawSeparators (b : Box) (ys : List Rat) :
    Built (IsKnown S) (drawSeparators b ys) fun _ => True := by
  induction ys with
  | nil => exact built_pure _
  | cons y rest ih => exact (built_line isKnown_separatorStyle).then fun _ => ih

lemma built_drawComposites (cells : Keyed String) {ps : List Placed}
    (h : ∀ p ∈ ps, p.element.Paints S) :
    Built (IsKnown S) (drawComposites cells ps) fun _ => True := by
  induction ps generalizing cells with
  | nil => exact built_pure _
  | cons p rest ih =>
    obtain ⟨hp, hrest⟩ := List.forall_mem_cons.1 h
    unfold drawComposites
    split
    · refine (built_boxed (isKnown_compositeStyle hp)).then fun id => ?_
      exact (built_drawSeparators _ _).then fun _ => ih _ hrest
    · exact ih _ hrest

lemma built_drawState {e : Element} (h : e.Paints S) (b : Box) :
    Built (IsKnown S) (drawState e b) fun _ => True := by
  unfold drawState
  split
  · exact (built_boxed (isKnown_plainStyle h)).any
  · refine (built_boxed (isKnown_describedStyle h)).bind fun id hid => ?_
    exact (built_part hid isKnown_descriptionStyle).then fun _ => built_pure _

lemma built_drawLeaf {e : Element} (h : e.Paints S) (b : Box) :
    Built (IsKnown S) (drawLeaf e b) fun _ => True := by
  unfold drawLeaf
  split
  · exact (built_boxed isKnown_dotStyle).any
  · refine (built_boxed isKnown_ringStyle).then fun id => ?_
    exact (built_boxed isKnown_dotStyle).then fun _ => built_pure _
  · exact (built_boxed isKnown_choiceStyle).any
  · exact (built_boxed isKnown_barStyle).any
  · exact (built_boxed isKnown_barStyle).any
  · exact (built_boxed isKnown_historyStyle).any
  · exact (built_boxed isKnown_historyStyle).any
  · exact built_drawState h b

lemma built_drawLeaves (cells : Keyed String) {ps : List Placed}
    (h : ∀ p ∈ ps, p.element.Paints S) :
    Built (IsKnown S) (drawLeaves cells ps) fun _ => True := by
  induction ps generalizing cells with
  | nil => exact built_pure _
  | cons p rest ih =>
    obtain ⟨hp, hrest⟩ := List.forall_mem_cons.1 h
    unfold drawLeaves
    split
    · exact ih _ hrest
    · exact (built_drawLeaf hp _).then fun id => ih _ hrest

lemma built_drawNotes (places : Keyed Box) (transitions : List Transition) (cells : Keyed String)
    (free : Rat × Rat) {ns : List Note} (h : ∀ n ∈ ns, Color.Fits S n.color) :
    Built (IsKnown S) (drawNotes places transitions cells free ns) fun _ => True := by
  induction ns generalizing free with
  | nil => exact built_pure _
  | cons n rest ih =>
    obtain ⟨hn, hrest⟩ := List.forall_mem_cons.1 h
    unfold drawNotes
    refine (built_boxed (Relation.isKnown_noteStyle hn)).then fun id => ?_
    cases (Relation.noteShape n).bind cells.get? with
    | some target =>
      exact (built_connect Relation.isKnown_noteConnectorStyle).then fun _ => ih _ hrest
    | none => exact ih _ hrest

lemma built_drawTransitions (cells : Keyed String) {ts : List Transition}
    (h : ∀ t ∈ ts, Color.Fits S t.stroke.color) :
    Built (IsKnown S) (drawTransitions cells ts) fun _ => True := by
  induction ts with
  | nil => exact built_pure _
  | cons t rest ih =>
    obtain ⟨ht, hrest⟩ := List.forall_mem_cons.1 h
    unfold drawTransitions
    split
    · exact (built_connect (isKnown_transitionStyle ht)).then fun _ => ih hrest
    · exact ih hrest

namespace Diagram

variable {d : Diagram}

/-- The elements in a layout are elements of the diagram. -/
lemma Paints.shapes (h : d.Paints S) (x y : Rat) :
    ∀ p ∈ (d.layout x y).shapes, p.element.Paints S := by
  have hin : ∀ n codes, ∀ e ∈ d.elementsIn n codes, e.Paints S := by
    intro n
    induction n with
    | zero => exact fun _ e he => nomatch he
    | succ n ih =>
      intro codes e he
      obtain ⟨e', he', he⟩ := List.mem_flatMap.1 he
      obtain ⟨code, -, hcode⟩ := List.mem_filterMap.1 he'
      rcases List.mem_cons.1 he with rfl | he
      · exact h.elements code _ hcode
      · exact ih _ e he
  intro p hp
  have hmem := List.mem_map_of_mem (f := Placed.element) hp
  rw [map_element_shapes] at hmem
  exact hin _ _ _ hmem

/-- What a state diagram is drawn with. -/
theorem built_sketch (h : d.Paints S) : Built (IsKnown S) d.sketch fun _ => True := by
  have htitle : Built (IsKnown S) d.drawTitle fun _ => True := by
    unfold drawTitle
    split
    · exact (built_boxed isKnown_titleStyle).then fun _ => built_pure _
    · exact built_pure _
  unfold sketch
  refine htitle.then fun top => ?_
  have hshapes := h.shapes margin top
  refine (built_drawComposites _ hshapes).then fun cells => ?_
  refine (built_drawLeaves _ hshapes).then fun cells => ?_
  refine (built_drawNotes _ _ _ _ h.notes).then fun _ => ?_
  exact built_drawTransitions _ h.transitions

end Diagram
end State

/-! ## The colors of a text -/

namespace State

open Scan
open Color (Fits fits_none fits_of_unbroken)
open Style (Unbroken unbroken_of_forall)

variable {S : String → Prop}

/-! ### Written borders and lines -/

/-- The color of a border is the end of its text. -/
lemma Border.fits_read {written : String} (h : ∀ c ∈ written.toList, c ≠ ';') :
    Fits Unbroken (read written).color := by
  have hsigns : ∀ c ∈ (Chars.after? ['#', '#'] written.toList).getD written.toList,
      c ∈ written.toList := by
    cases hrest : Chars.after? ['#', '#'] written.toList with
    | none => exact fun c hc => hc
    | some rest =>
      rw [Chars.after?_eq_some_iff.1 hrest]
      exact fun c hc => List.mem_append_right _ hc
  have hword : word.Within fun _ => True := by
    unfold word
    refine Within.bind (Within.char trivial) fun _ => ?_
    refine Within.bind (Within.many1 fun _ _ => trivial) fun _ => ?_
    exact Within.bind (Within.char trivial) fun _ => Within.pure _
  refine fits_of_unbroken fun s hs => unbroken_of_forall fun c hc => h c (hsigns c ?_)
  unfold read at hs
  dsimp only at hs
  split at hs
  · next w rest hstart =>
    obtain ⟨u, hu, -⟩ := hword.of_start hstart
    split_ifs at hs
    obtain rfl := Option.some.inj hs
    rw [String.toList_ofList] at hc
    exact hu ▸ List.mem_append_right _ hc
  · split_ifs at hs
    obtain rfl := Option.some.inj hs
    rwa [String.toList_ofList] at hc

/-- The color of a line is a part of its text. -/
lemma Stroke.fits_read {written : String} (h : ∀ c ∈ written.toList, c ≠ ';') :
    Fits Unbroken (read written).color := by
  have hparts : ∀ part ∈ Chars.split ',' written.toList, ∀ c ∈ part, c ≠ ';' :=
    fun part hpart c hc => h c (Chars.mem_of_mem_splitWhen hpart hc)
  refine fits_of_unbroken ?_
  refine List.foldlRecOn (motive := fun t : Stroke => ∀ s, t.color = some s → Unbroken s) _ change
    nofun fun t ht part hpart => ?_
  unfold change
  dsimp only
  split
  · intro s hs
    obtain rfl := Option.some.inj hs
    refine unbroken_of_forall fun c hc => hparts part hpart c (Chars.mem_of_mem_trim ?_)
    rwa [String.toList_ofList] at hc
  · split
    · exact ht
    · exact ht

/-! ### Lines -/

/-- The colors of a declaration are as described. -/
structure Declaration.Paints (S : String → Prop) (d : Declaration) : Prop where
  fill : Fits S d.color
  border : Fits S d.border.color

/-- The colors that a line writes are as described. -/
def Line.Paints (S : String → Prop) : Line → Prop
  | .composite d | .declare d _ => d.Paints S
  | .note n => n.Paints S
  | .transition source target head =>
    Fits S source.color ∧ Fits S target.color ∧ Fits S head.stroke.color
  | _ => True

namespace Line

instance : name.Honest := by
  unfold name quotedName
  infer_instance

instance {α : Type} {p : Scan α} [p.Honest] : (trailing p).Honest := by
  unfold trailing
  infer_instance

instance : stereotype.Honest := by
  unfold stereotype
  infer_instance

instance : noteTarget.Honest := by
  unfold noteTarget
  infer_instance

instance (c : Char) : (twoOrMore c).Honest := by
  unfold twoOrMore
  infer_instance

instance : endPoint.Honest := by
  unfold endPoint historyMark barSide
  infer_instance

instance : circle.Honest := by
  unfold circle
  infer_instance

instance : cross.Honest := by
  unfold cross
  infer_instance

lemma yields_trailing : (trailing Token.plainColor).Yields (Fits Unbroken) :=
  Color.yields_optional (Yields.bind fun _ => Token.yields_plainColor)

lemma yields_border : border.Yields fun b => Fits Unbroken b.color := by
  have hwritten : (do
      Scan.text "##"
      let _ ← Scan.optional do
        let _ ← Scan.char '['
        let _ ← Scan.oneOf ["dotted", "dashed", "bold"]
        Scan.char ']'
      Scan.many Letter.isWord : Scan String).Within (· ≠ ';') := by
    refine Within.bind (Within.text (by decide)) fun _ => Within.bind (Within.optional ?_) fun _ =>
      Within.many fun _ => Letter.ne_of_isWord
    refine Within.bind (Within.char (by decide)) fun _ => ?_
    exact (Within.oneOf_ne (by decide +kernel)).bind fun _ => Within.char (by decide)
  unfold border
  exact Yields.map (hwritten.captured.imp fun s hs => Border.fits_read hs)

lemma yields_declaration (word : String) (bordered : Bool) :
    (declaration word bordered).Yields (Declaration.Paints Unbroken) := by
  have hborder : (trailing do
      Scan.require bordered
      border).Yields fun b => Fits Unbroken (b.getD {}).color := by
    refine (Yields.optional (Yields.bind fun _ => Yields.bind fun _ => yields_border)).imp
      fun b hb => ?_
    cases b with
    | none => exact fits_none
    | some b => exact hb b rfl
  unfold declaration
  iterate 4 refine Yields.bind fun _ => ?_
  refine yields_trailing.bindOf fun c hc => ?_
  exact hborder.bindOf fun b hb => Yields.pure ⟨hc, hb⟩

lemma yields_composite : readComposite.Yields (Paints Unbroken) := by
  have hhead : (do
      let d ← declaration "state" true
      Scan.blanks
      pure d : Scan Declaration).Yields (Declaration.Paints Unbroken) :=
    (yields_declaration "state" true).bindOf fun d hd => Yields.bind fun _ => Yields.pure hd
  unfold readComposite
  refine hhead.withText.bindOf fun ⟨d, before⟩ hd => ?_
  dsimp only
  iterate 2 refine Yields.bind fun _ => ?_
  exact Yields.pure hd

lemma yields_frame : readFrame.Yields (Paints Unbroken) := by
  unfold readFrame
  refine (yields_declaration "frame" false).bindOf fun d hd => ?_
  iterate 3 refine Yields.bind fun _ => ?_
  exact Yields.pure ⟨hd.fill, hd.border⟩

lemma yields_declare : readDeclare.Yields (Paints Unbroken) := by
  unfold readDeclare
  refine (yields_declaration "state" true).bindOf fun d hd => ?_
  iterate 2 refine Yields.bind fun _ => ?_
  exact Yields.pure hd

lemma yields_note : readNote.Yields (Paints Unbroken) := by
  have hbeside : (NoteLine.beside noteTarget Token.plainColor).Yields
      fun n => Fits Unbroken n.color := NoteLine.yields_beside Token.yields_plainColor
  have honLink := NoteLine.yields_onLink Token.yields_plainColor
  have hnoteText : ∀ {head : Scan Note}, (head.Yields fun n => Fits Unbroken n.color) →
      (noteText head).Yields (NoteLine.Paints Unbroken) := by
    intro head hhead
    refine hhead.bindOf fun n hn => ?_
    iterate 4 refine Yields.bind fun _ => ?_
    exact Yields.pure hn
  have hfree : freeNote.Yields (NoteLine.Paints Unbroken) := by
    unfold freeNote
    iterate 5 refine Yields.bind fun _ => ?_
    exact yields_trailing.bindOf fun c hc => Yields.pure hc
  unfold readNote
  refine Yields.map (Yields.anyOf ?_)
  simp only [List.forall_mem_cons]
  exact ⟨hnoteText hbeside, hfree, hnoteText honLink, NoteLine.yields_withoutText honLink,
    NoteLine.yields_withoutText hbeside, List.forall_mem_nil _⟩

lemma yields_mention : mention.Yields fun m => Fits Unbroken m.color := by
  unfold mention
  iterate 2 refine Yields.bind fun _ => ?_
  exact yields_trailing.bindOf fun c hc => Yields.pure hc

/-- The parts of a line are words and numbers. -/
lemma within_strokePart : strokePart.Within (· ≠ ';') := by
  have hdigit : ∀ c, Letter.isDigit c = true → c ≠ ';' := by
    rintro c hc rfl
    exact absurd hc (by decide +kernel)
  refine Within.anyOf ?_
  simp only [List.forall_mem_cons]
  refine ⟨Token.within_plainColor.bind fun _ => Within.pure _,
    (Within.oneOf_ne (by decide +kernel)).bind fun _ => Within.pure _, ?_,
    List.forall_mem_nil _⟩
  exact Within.bind (Within.text (by decide)) fun _ => Within.skip1 hdigit

lemma yields_stroke : stroke.Yields fun t => Fits Unbroken t.color := by
  have hparts : (do
      strokePart
      Scan.repeated do
        let _ ← Scan.char ','
        strokePart : Scan (List Unit)).Within (· ≠ ';') := by
    refine within_strokePart.bind fun _ => Within.repeated ?_
    exact Within.bind (Within.char (by decide)) fun _ => within_strokePart
  unfold stroke
  refine Yields.bind fun _ => hparts.captured.bindOf fun s hs => Yields.bind fun _ => ?_
  exact Yields.pure (Stroke.fits_read hs)

lemma yields_stroke? : (Scan.optional stroke).Yields fun t => Fits Unbroken (t.getD {}).color := by
  refine (Yields.optional yields_stroke).imp fun t ht => ?_
  cases t with
  | none => exact fits_none
  | some t => exact ht t rfl

lemma yields_shaft {before behind : Scan String} [before.Honest] [behind.Honest] :
    (shaft before behind).Yields fun r =>
      Fits Unbroken r.1.color ∧ Fits Unbroken r.2.2.1.color := by
  unfold shaft
  refine Yields.bind fun _ => yields_stroke?.bindOf fun t ht => Yields.bind fun _ => ?_
  exact yields_stroke?.bindOf fun t' ht' => Yields.bind fun _ => Yields.pure ⟨ht, ht'⟩

lemma yields_forward : readForward.Yields (Paints Unbroken) := by
  unfold readForward
  refine yields_mention.bindOf fun source hsource => ?_
  iterate 2 refine Yields.bind fun _ => ?_
  refine yields_shaft.bindOf fun ⟨stroke1, turn, stroke2, length⟩ ⟨h1, h2⟩ => ?_
  dsimp only
  iterate 4 refine Yields.bind fun _ => ?_
  refine yields_mention.bindOf fun target htarget => Yields.bind fun _ => ?_
  exact Yields.pure ⟨hsource, htarget, h1.or h2⟩

lemma yields_backward : readBackward.Yields (Paints Unbroken) := by
  unfold readBackward
  refine yields_mention.bindOf fun target htarget => ?_
  iterate 4 refine Yields.bind fun _ => ?_
  refine yields_shaft.bindOf fun ⟨stroke1, turn, stroke2, length⟩ ⟨h1, h2⟩ => ?_
  dsimp only
  iterate 2 refine Yields.bind fun _ => ?_
  refine yields_mention.bindOf fun source hsource => Yields.bind fun _ => ?_
  exact Yields.pure ⟨hsource, htarget, h2.or h1⟩

/-- The forms without colors. -/
lemma yields_uncolored : ∀ p ∈ [readHideEmpty, readNothing, readTitle, readDirection, readBlockEnd,
    readSeparator, readDescribe], p.Yields (Paints Unbroken) := by
  simp only [List.forall_mem_cons]
  refine ⟨?_, ?_, ?_, ?_, ?_, ?_, ?_, List.forall_mem_nil _⟩
  · unfold readHideEmpty
    iterate 2 refine Yields.bind fun _ => ?_
    exact Yields.pure trivial
  · unfold readNothing
    iterate 3 refine Yields.bind fun _ => ?_
    exact Yields.pure trivial
  · exact Yields.bind fun _ => Yields.pure trivial
  · exact (Yields.bind fun _ => Yields.pure trivial).either
      (Yields.bind fun _ => Yields.pure trivial)
  · exact Yields.bind fun _ => Yields.pure trivial
  · exact (Yields.bind fun _ => Yields.pure trivial).either
      (Yields.bind fun _ => Yields.pure trivial)
  · unfold readDescribe
    have : quotedName.Honest := by
      unfold quotedName
      infer_instance
    iterate 5 refine Yields.bind fun _ => ?_
    exact Yields.pure trivial

/-- The colors of a line. -/
theorem paints_of_read? {isInside : Bool} {s : List Char} {l : Line}
    (h : read? isInside s = some l) : l.Paints Unbroken := by
  have huncolored := yields_uncolored
  simp only [List.forall_mem_cons] at huncolored
  obtain ⟨hhide, hnothing, htitle, hdirection, hend, hseparator, hdescribe, -⟩ := huncolored
  have hforms : ∀ p ∈ forms isInside, p.Yields (Paints Unbroken) := by
    simp only [forms, List.forall_mem_cons]
    exact ⟨hhide, hnothing, htitle, hdirection, yields_composite, hend, yields_frame,
      Yields.bind fun _ => hseparator, yields_declare, yields_note, yields_forward, yields_backward,
      List.forall_mem_nil _⟩
  rcases Option.or_eq_some_iff.1 h with h | ⟨-, h⟩
  · exact (Yields.anyOf hforms).of_whole h
  · split_ifs at h
    exact hdescribe.of_whole h

end Line

/-! ### Readers -/

namespace Diagram
namespace Paints

variable {d : Diagram}

lemma mention (h : d.Paints S) (code display : String) (kind : ElementKind) :
    (d.mention code display kind).Paints S := by
  refine { h with elements := ?_ }
  unfold Diagram.mention
  dsimp only
  split
  · exact h.elements.modify fun e he => ⟨he.fill, he.border⟩
  · exact h.elements.insert ⟨fits_none, fits_none⟩

lemma change (h : d.Paints S) (code : String) {f : Element → Element}
    (hf : ∀ e, e.Paints S → (f e).Paints S) : (d.change code f).Paints S :=
  { h with elements := h.elements.modify hf }

lemma adopt (h : d.Paints S) (parent code : String) : (d.adopt parent code).Paints S := by
  unfold Diagram.adopt
  split
  · exact h
  · split
    · have hplaced : (d.change code fun e => { e with parent := some parent }).Paints S :=
        h.change code fun e he => ⟨he.fill, he.border⟩
      exact hplaced.change parent fun e he => ⟨he.fill, he.border⟩
    · exact h

end Paints
end Diagram

/-- The colors so far are as described. -/
structure Reader.Paints (S : String → Prop) (r : Reader) : Prop where
  diagram : r.diagram.Paints S
  note : ∀ x, r.note = some x → Fits S x.1.color

namespace Reader
namespace Paints

variable {r : Reader}

/-- The diagram of a reader changes. -/
lemma withDiagram (h : r.Paints S) {d : Diagram} (hd : d.Paints S) :
    ({ r with diagram := d } : Reader).Paints S :=
  { h with diagram := hd }

lemma change (h : r.Paints S) (code : String) {f : Element → Element}
    (hf : ∀ e, e.Paints S → (f e).Paints S) : (r.change code f).Paints S :=
  h.withDiagram (h.diagram.change code hf)

lemma place (h : r.Paints S) (code : String) : (r.place code).Paints S := by
  unfold Reader.place
  split
  · exact h
  · split
    · exact h
    · exact h.withDiagram (h.diagram.adopt _ _)

lemma mention (h : r.Paints S) (code display : String) (kind : ElementKind) :
    (r.mention code display kind).Paints S :=
  (h.withDiagram (h.diagram.mention code display kind)).place code

lemma resolve (h : r.Paints S) (isSource : Bool) (p : EndPoint) :
    (r.resolve isSource p).1.Paints S := by
  cases p with
  | terminal => exact h.mention _ _ _
  | history deep => exact h.mention _ _ _
  | historyOf owner deep =>
    exact h.withDiagram (((h.diagram.mention _ _ _).mention _ _ _).adopt _ _)
  | bar code => exact h.mention _ _ _
  | state code => exact h.mention _ _ _

lemma annotate {m : Mention} (hm : Fits S m.color) (e : Element) (he : e.Paints S) :
    (annotate m e).Paints S := by
  unfold Reader.annotate
  refine ⟨Color.Fits.or ?_ hm, ?_⟩
  all_goals
    split
    · first | exact he.fill | exact he.border
    · split
      · first | exact he.fill | exact he.border
      · unfold Element.addStereotype
        split
        all_goals first | exact he.fill | exact he.border

lemma addTransition (h : r.Paints S) {t : Transition} (ht : Fits S t.stroke.color) :
    (r.addTransition t).Paints S := by
  have hadd := h.withDiagram (d := { r.diagram with transitions := r.diagram.transitions ++ [t] })
    { h.diagram with
      transitions := List.forall_mem_append.2
        ⟨h.diagram.transitions, List.forall_mem_singleton.2 ht⟩ }
  unfold Reader.addTransition
  dsimp only
  split
  · exact hadd
  · exact hadd.change _ fun e he => ⟨he.fill, he.border⟩

lemma connect (h : r.Paints S) {source target : Mention} {head : TransitionHead}
    (hsource : Fits S source.color) (htarget : Fits S target.color)
    (hhead : Fits S head.stroke.color) : (r.connect source target head).Paints S := by
  have hends := (h.resolve true source.point).resolve false target.point
  exact ((hends.change _ (annotate hsource)).change _ (annotate htarget)).addTransition hhead

lemma decorate {d : Declaration} (hd : d.Paints S) (e : Element) (he : e.Paints S) :
    (decorate d e).Paints S := by
  have hdecorated : Element.Paints S { e with
      color := d.color.or e.color
      border := ⟨d.border.color.or e.border.color, d.border.style.or e.border.style⟩ } :=
    ⟨hd.fill.or he.fill, hd.border.or he.border⟩
  unfold Reader.decorate
  dsimp only
  split
  · exact hdecorated
  · split
    · exact hdecorated
    · unfold Element.addStereotype
      split
      · exact hdecorated
      · exact ⟨hdecorated.fill, hdecorated.border⟩

lemma declare (h : r.Paints S) {d : Declaration} (hd : d.Paints S) (descriptions : List String) :
    (r.declare d descriptions).Paints S := by
  refine Paints.place (Paints.change (h.withDiagram (h.diagram.mention _ _ _)) _ fun e he => ?_) _
  exact ⟨(decorate hd e he).fill, (decorate hd e he).border⟩

lemma settle (r : Reader) (n : Note) : (r.settle n).color = n.color := by
  unfold Reader.settle
  split <;> rfl

lemma addNote (h : r.Paints S) {n : Note} (hn : Fits S n.color) : (r.addNote n).Paints S :=
  h.withDiagram { h.diagram with
    notes := List.forall_mem_append.2 ⟨h.diagram.notes, List.forall_mem_singleton.2 hn⟩ }

lemma opened (h : r.Paints S) {n : Note} (hn : Fits S n.color) (lines : List (List Char)) :
    ({ r with note := some (n, lines) } : Reader).Paints S :=
  { h with note := fun _ hx => Option.some.inj hx ▸ hn }

lemma closed (h : r.Paints S) : ({ r with note := none } : Reader).Paints S :=
  { h with note := fun x hx => absurd hx.symm (Option.some_ne_none x) }

/-- A line with a meaning adds its colors. -/
lemma apply (h : r.Paints S) {l : Line} (hl : l.Paints S) : (r.apply l).Paints S := by
  cases l with
  | title | direction | hideEmpty => exact h.withDiagram { h.diagram with }
  | nothing => exact h
  | composite d =>
    have hdeclare := h.declare hl []
    exact { hdeclare with }
  | blockEnd => exact { h with }
  | separator s =>
    unfold Reader.apply Reader.divide
    dsimp only
    split
    · exact h
    · exact h.change _ fun e he => ⟨he.fill, he.border⟩
  | declare d description => exact h.declare hl _
  | note n =>
    cases n with
    | complete n =>
      refine h.addNote ?_
      rw [settle]
      exact hl
    | start n =>
      refine h.opened ?_ []
      rw [settle]
      exact hl
  | transition source target head =>
    obtain ⟨hsource, htarget, hhead⟩ := hl
    exact h.connect hsource htarget hhead
  | describe name text =>
    refine Paints.place (Paints.change (h.withDiagram (h.diagram.mention _ _ _)) _ fun e he => ?_) _
    exact ⟨he.fill, he.border⟩

/-- A line keeps what is known of the colors so far. -/
theorem step (h : r.Paints Unbroken) (line : SourceLine) : (r.step line).Paints Unbroken := by
  unfold Reader.step
  split
  · next n lines hnote =>
    have hn : Fits Unbroken n.color := h.note _ hnote
    split
    · exact h.closed.addNote (n := { n with text := Label.dedent lines }) hn
    · exact h.opened hn _
  · split
    · exact h
    · split
      · next l hl => exact h.apply (Line.paints_of_read? hl)
      · exact h

end Paints
end Reader

/-- The colors of a state diagram that is read hold no semicolons. -/
theorem Diagram.paints_read (text : String) : (read text).Paints Unbroken := by
  have hstart : ({} : Reader).Paints Unbroken :=
    ⟨⟨Keyed.all_empty, List.forall_mem_nil _, List.forall_mem_nil _⟩,
      fun x hx => absurd hx.symm (Option.some_ne_none x)⟩
  have hr := List.foldlRecOn (motive := Reader.Paints Unbroken) (Source.lines text) Reader.step
    hstart fun r hr line _ => hr.step line
  exact hr.diagram

end State
end UmlDraw
