/-
# The styles of timing diagrams

The styles of a drawing take nothing from the text but colors, and the diagram has its colors from
the lines of the text.

The main statements are

* `Timing.Diagram.all_marks`: what a diagram is drawn with;
* `Line.paints_of_read?`: the colors of a line;
* `Reader.Paints.step`: a line keeps what is known of the colors so far;
* `Diagram.paints_read`: the colors of the diagram.
-/
import UmlDraw.Proofs.Data.Outcome
import UmlDraw.Proofs.Style.Sketch
import UmlDraw.Proofs.Style.Token
import UmlDraw.Proofs.Timing.Line
import UmlDraw.Timing.Drawing
import UmlDraw.Timing.Reader

namespace UmlDraw

/-- The style of a mark. -/
def Mark.style : Mark → Style
  | shape _ style _ _ _ _ => style
  | line _ style _ _ _ => style

/-- The styles of marks are as described. -/
def Mark.All (P : Style → Prop) (ms : List Mark) : Prop :=
  ∀ m ∈ ms, P m.style

namespace Mark

open Sketch

variable {P : Style → Prop} {ms ms' : List Mark}

lemma All.append (h : All P ms) (h' : All P ms') : All P (ms ++ ms') :=
  List.forall_mem_append.2 ⟨h, h'⟩

lemma all_nil : All P [] :=
  List.forall_mem_nil _

lemma all_singleton {m : Mark} (h : P m.style) : All P [m] :=
  List.forall_mem_singleton.2 h

lemma all_flatten {mss : List (List Mark)} (h : ∀ ms ∈ mss, All P ms) : All P mss.flatten := by
  intro m hm
  obtain ⟨ms, hms, hm⟩ := List.mem_flatten.1 hm
  exact h ms hms m hm

lemma all_polyline {style : Style} (h : P style) (points : List Point) :
    All P (polyline style points) := by
  unfold polyline
  split
  · exact all_singleton h
  · exact all_nil

/-- Marks are drawn with their styles. -/
lemma built_drawAll (h : All P ms) : Built P (drawAll ms) fun _ => True := by
  induction ms with
  | nil => exact built_pure _
  | cons m rest ih =>
    obtain ⟨hm, hrest⟩ := List.forall_mem_cons.1 h
    have hdraw : Built P m.draw fun _ => True := by
      cases m with
      | shape value style x y width height => exact (built_shape hm).then fun _ => built_pure _
      | line value style start between stop => exact built_line hm
    exact hdraw.then fun _ => ih hrest

end Mark

namespace Timing

open Style

variable {S : String → Prop}

/-- The colors of a player and its changes are as described. -/
structure Player.Paints (S : String → Prop) (p : Player) : Prop where
  own : Color.Fits S p.color
  changes : ∀ c ∈ p.changes, Color.Fits S c.color

/-- The colors of a diagram are as described. -/
structure Diagram.Paints (S : String → Prop) (d : Diagram) : Prop where
  players : Keyed.All (Player.Paints S) d.players
  highlights : ∀ h ∈ d.highlights, Color.Fits S h.color
  notes : ∀ n ∈ d.notes, Color.Fits S n.color

lemma Diagram.paints_any (d : Diagram) : d.Paints fun _ => True where
  players := fun _ _ _ => ⟨Color.fits_any, fun _ _ => Color.fits_any⟩
  highlights := fun _ _ => Color.fits_any
  notes := fun _ _ => Color.fits_any

/-! ### Styles -/

lemma isKnown_titleStyle : titleStyle.IsKnown S :=
  knows_of (by repeat constructor)

lemma isKnown_playerStyle : playerStyle.IsKnown S :=
  knows_of (by repeat constructor)

lemma isKnown_laneStyle : laneStyle.IsKnown S :=
  knows_of (by repeat constructor)

lemma isKnown_stateStyle : stateStyle.IsKnown S :=
  knows_of (by repeat constructor)

lemma isKnown_axisStyle : axisStyle.IsKnown S :=
  knows_of (by repeat constructor)

lemma isKnown_timeStyle : timeStyle.IsKnown S :=
  knows_of (by repeat constructor)

lemma isKnown_constraintStyle : constraintStyle.IsKnown S :=
  knows_of (by repeat constructor)

lemma isKnown_messageStyle : messageStyle.IsKnown S :=
  knows_of (by repeat constructor)

lemma isKnown_waveStyle {color : Option String} (h : Color.Fits S color) :
    (waveStyle color).IsKnown S := by
  have hstroke : Known S ("strokeColor", .text (Color.getD color "#000000")) :=
    h.getD (by decide) (.strokeColor (by decide))
  refine knows_of ?_
  repeat first | exact hstroke | constructor

/-- The line of a hidden state has the gray of its own. -/
lemma isKnown_waveStyle_hidden : (waveStyle (some "#999999")).IsKnown S := by
  have hgray : Color.getD (some "#999999") "#000000" = "#999999" := by decide +kernel
  unfold waveStyle
  rw [hgray]
  exact knows_of (by repeat constructor)

lemma isKnown_barStyle {p : Player} {color : Option String} (h : Color.Fits S color)
    (hp : Color.Fits S p.color) : (barStyle p color).IsKnown S := by
  have hbar : Knows S (barEntries p.kind) := by
    unfold barEntries
    split
    all_goals repeat constructor
  exact ((knows_of hbar).update (by repeat constructor)).update ((h.or hp).entry (by decide))

lemma isKnown_highlightStyle {color : Option String} (h : Color.Fits S color) :
    (highlightStyle color).IsKnown S := by
  have hfill := h.fillColor "#FFD700" (.fillColor (by decide))
  refine knows_of ?_
  repeat first | exact hfill | constructor

/-! ### Waveforms -/

lemma mem_of_ofChanges {s : Scale} {cs : List StateChange} {gs : List Segment}
    (h : Segment.ofChanges s cs = .ok gs) : ∀ g ∈ gs, g.change ∈ cs := by
  induction cs generalizing gs with
  | nil =>
    obtain rfl := Except.ok.inj h
    exact List.forall_mem_nil _
  | cons c rest ih =>
    obtain ⟨left, -, h⟩ := Fault.bind_eq_ok_iff.1 h
    obtain ⟨segments, hsegments, h⟩ := Fault.bind_eq_ok_iff.1 h
    obtain rfl := Except.ok.inj h
    refine List.forall_mem_cons.2 ⟨List.mem_cons_self, fun g hg => ?_⟩
    exact List.mem_cons_of_mem c (ih hsegments g hg)

namespace Lane

variable {l : Lane} {gs : List Segment}

lemma all_robust (hl : l.player.Paints S) (previous : Option Rat)
    (h : ∀ g ∈ gs, Color.Fits S g.change.color) :
    Mark.All (IsKnown S) (l.robust previous gs) := by
  induction gs generalizing previous with
  | nil => exact Mark.all_nil
  | cons g rest ih =>
    obtain ⟨hg, hrest⟩ := List.forall_mem_cons.1 h
    have hstyle : (waveStyle (g.change.color.or l.player.color)).IsKnown S :=
      isKnown_waveStyle (hg.or hl.own)
    unfold robust
    split
    · exact ih none hrest
    · refine Mark.All.append (Mark.All.append (Mark.All.append ?_ ?_) ?_) (ih _ hrest)
      · split
        · split
          · exact Mark.all_nil
          · exact Mark.all_polyline hstyle _
        · exact Mark.all_nil
      · exact Mark.all_polyline hstyle _
      · split
        · exact Mark.all_singleton isKnown_stateStyle
        · exact Mark.all_nil

lemma all_bar (hl : l.player.Paints S) {g : Segment} (h : Color.Fits S g.change.color) :
    Mark.All (IsKnown S) (l.bar g) := by
  unfold bar
  split
  · exact Mark.all_nil
  · split
    · exact Mark.all_polyline isKnown_waveStyle_hidden _
    · exact Mark.all_singleton (isKnown_barStyle h hl.own)

/-- A waveform takes the colors of its player and of the changes. -/
lemma all_waveform (hl : l.player.Paints S) {s : Scale} {ms : List Mark}
    (h : l.waveform s = .ok ms) : Mark.All (IsKnown S) ms := by
  have hsegments : ∀ gs, Segment.ofChanges s l.player.changes = .ok gs →
      ∀ g ∈ gs, Color.Fits S g.change.color :=
    fun gs hgs g hg => hl.changes _ (mem_of_ofChanges hgs g hg)
  have hline : ∀ points, Mark.All (IsKnown S) (Mark.polyline (waveStyle l.player.color) points) :=
    Mark.all_polyline (isKnown_waveStyle hl.own)
  unfold waveform at h
  dsimp only at h
  split at h
  · obtain ⟨gs, hgs, h⟩ := Fault.bind_eq_ok_iff.1 h
    obtain rfl := Except.ok.inj h
    exact all_robust hl none (hsegments gs hgs)
  · obtain ⟨gs, hgs, h⟩ := Fault.bind_eq_ok_iff.1 h
    obtain rfl := Except.ok.inj h
    exact List.forall_mem_flatMap.2 fun g hg => all_bar hl (hsegments gs hgs g hg)
  · obtain ⟨gs, hgs, h⟩ := Fault.bind_eq_ok_iff.1 h
    obtain rfl := Except.ok.inj h
    exact List.forall_mem_flatMap.2 fun g hg => all_bar hl (hsegments gs hgs g hg)
  · obtain ⟨points, -, h⟩ := Fault.bind_eq_ok_iff.1 h
    obtain rfl := Except.ok.inj h
    exact hline points
  · obtain ⟨gs, -, h⟩ := Fault.bind_eq_ok_iff.1 h
    obtain rfl := Except.ok.inj h
    exact hline _
  · obtain ⟨gs, -, h⟩ := Fault.bind_eq_ok_iff.1 h
    obtain ⟨points, -, h⟩ := Fault.bind_eq_ok_iff.1 h
    obtain rfl := Except.ok.inj h
    exact hline points
  · obtain rfl := Except.ok.inj h
    exact Mark.all_nil

lemma player_of_mem_stack {compact : Bool} {y : Rat} {ps : List Player} :
    ∀ l ∈ (stack compact y ps).1, l.player ∈ ps := by
  induction ps generalizing y with
  | nil => exact List.forall_mem_nil _
  | cons p rest ih =>
    unfold stack
    refine List.forall_mem_cons.2 ⟨List.mem_cons_self, fun l hl => ?_⟩
    exact List.mem_cons_of_mem p (ih l hl)

end Lane

/-! ### Marks -/

lemma all_noteMarks (s : Scale) (lanes : List Lane) (before : List PlayerNote)
    {ns : List PlayerNote} (h : ∀ n ∈ ns, Color.Fits S n.color) :
    Mark.All (IsKnown S) (noteMarks s lanes before ns) := by
  induction ns generalizing before with
  | nil => exact Mark.all_nil
  | cons n rest ih =>
    obtain ⟨hn, hrest⟩ := List.forall_mem_cons.1 h
    unfold noteMarks
    split
    · exact ih _ hrest
    · exact List.forall_mem_cons.2 ⟨Relation.isKnown_noteStyle hn, ih _ hrest⟩

lemma all_constraintMarks {s : Scale} {lanes : List Lane} {y : Rat} {cs : List Constraint}
    {r : List Mark × Rat} (h : constraintMarks s lanes y cs = .ok r) :
    Mark.All (IsKnown S) r.1 := by
  induction cs generalizing y r with
  | nil =>
    obtain rfl := Except.ok.inj h
    exact Mark.all_nil
  | cons c rest ih =>
    obtain ⟨_, -, h⟩ := Fault.bind_eq_ok_iff.1 h
    obtain ⟨_, -, h⟩ := Fault.bind_eq_ok_iff.1 h
    obtain ⟨r', hr', h⟩ := Fault.bind_eq_ok_iff.1 h
    obtain rfl := Except.ok.inj h
    exact List.forall_mem_cons.2 ⟨isKnown_constraintStyle, ih hr'⟩

lemma all_messageMark {s : Scale} {lanes : List Lane} {m : Message} {ms : List Mark}
    (h : messageMark s lanes m = .ok ms) : Mark.All (IsKnown S) ms := by
  unfold messageMark at h
  split at h
  · obtain ⟨_, -, h⟩ := Fault.bind_eq_ok_iff.1 h
    obtain ⟨_, -, h⟩ := Fault.bind_eq_ok_iff.1 h
    obtain rfl := Except.ok.inj h
    exact Mark.all_singleton isKnown_messageStyle
  · obtain rfl := Except.ok.inj h
    exact Mark.all_nil

lemma all_tickMarks {s : Scale} {y : Rat} {t : Number} {ms : List Mark}
    (h : tickMarks s y t = .ok ms) : Mark.All (IsKnown S) ms := by
  obtain ⟨_, -, h⟩ := Fault.bind_eq_ok_iff.1 h
  obtain ⟨_, -, h⟩ := Fault.bind_eq_ok_iff.1 h
  obtain rfl := Except.ok.inj h
  exact List.forall_mem_cons.2 ⟨isKnown_axisStyle, Mark.all_singleton isKnown_timeStyle⟩

lemma all_axisMarks {s : Scale} {y : Rat} {ms : List Mark} (h : axisMarks s y = .ok ms) :
    Mark.All (IsKnown S) ms := by
  obtain ⟨ticks, hticks, h⟩ := Fault.bind_eq_ok_iff.1 h
  obtain rfl := Except.ok.inj h
  refine List.forall_mem_cons.2 ⟨isKnown_axisStyle, Mark.all_flatten fun ms hms => ?_⟩
  obtain ⟨t, -, ht⟩ := Fault.exists_of_mem_mapM hticks hms
  exact all_tickMarks ht

lemma isKnown_highlightMark {s : Scale} {top bottom : Rat} {h : Highlight} {m : Mark}
    (hm : highlightMark s top bottom h = .ok m) (hcolor : Color.Fits S h.color) :
    m.style.IsKnown S := by
  obtain ⟨_, -, hm⟩ := Fault.bind_eq_ok_iff.1 hm
  obtain ⟨_, -, hm⟩ := Fault.bind_eq_ok_iff.1 hm
  obtain rfl := Except.ok.inj hm
  rw [Mark.style]
  exact isKnown_highlightStyle hcolor

lemma Diagram.all_titleMarks (d : Diagram) (s : Scale) : Mark.All (IsKnown S) (d.titleMarks s) := by
  unfold titleMarks
  split
  · exact Mark.all_singleton isKnown_titleStyle
  · exact Mark.all_nil

/-- What a timing diagram is drawn with. -/
theorem Diagram.all_marks {d : Diagram} (hd : d.Paints S) {ms : List Mark}
    (h : d.marks = .ok ms) : Mark.All (IsKnown S) ms := by
  obtain ⟨s, -, h⟩ := Fault.bind_eq_ok_iff.1 h
  obtain ⟨highlights, hhighlights, h⟩ := Fault.bind_eq_ok_iff.1 h
  obtain ⟨waveforms, hwaveforms, h⟩ := Fault.bind_eq_ok_iff.1 h
  obtain ⟨constraints, hconstraints, h⟩ := Fault.bind_eq_ok_iff.1 h
  obtain ⟨messages, hmessages, h⟩ := Fault.bind_eq_ok_iff.1 h
  have hfront := d.all_titleMarks (S := S) s
  have hhighlights' : Mark.All (IsKnown S) highlights := by
    intro m hm
    obtain ⟨h, hmem, hmark⟩ := Fault.exists_of_mem_mapM hhighlights hm
    exact isKnown_highlightMark hmark (hd.highlights h hmem)
  have hwaveforms' : Mark.All (IsKnown S) waveforms.flatten := by
    refine Mark.all_flatten fun ms hms => ?_
    obtain ⟨l, hl, hwave⟩ := Fault.exists_of_mem_mapM hwaveforms hms
    obtain ⟨⟨code, _⟩, hentry, hplayer⟩ := List.mem_map.1 (Lane.player_of_mem_stack l hl)
    have hget := Keyed.get?_eq_some_iff.2 hentry
    exact Lane.all_waveform (hplayer ▸ hd.players code _ hget) hwave
  have hmessages' : Mark.All (IsKnown S) messages.flatten := by
    refine Mark.all_flatten fun ms hms => ?_
    obtain ⟨m, -, hmark⟩ := Fault.exists_of_mem_mapM hmessages hms
    exact all_messageMark hmark
  have hlanes : ∀ lanes : List Lane, Mark.All (IsKnown S) (lanes.map (laneMark s)) :=
    fun _ => List.forall_mem_map.2 fun _ _ => isKnown_laneStyle
  have hlabels : ∀ lanes : List Lane, Mark.All (IsKnown S) (lanes.map labelMark) :=
    fun _ => List.forall_mem_map.2 fun _ _ => isKnown_playerStyle
  have hmiddle := fun lanes : List Lane => ((((((hfront.append hhighlights').append
    (hlanes lanes)).append hwaveforms').append (all_noteMarks s lanes [] hd.notes)).append
      (all_constraintMarks hconstraints)).append hmessages')
  -- without an axis nothing stands between the messages and the labels
  dsimp only at h
  split at h
  · obtain rfl := Except.ok.inj h
    exact ((hmiddle _).append Mark.all_nil).append (hlabels _)
  · obtain ⟨axis, haxis, h⟩ := Fault.bind_eq_ok_iff.1 h
    obtain rfl := Except.ok.inj h
    exact ((hmiddle _).append (all_axisMarks haxis)).append (hlabels _)

end Timing

/-! ## The colors of a text -/

namespace Timing

open Scan
open Color (Fits fits_none)
open Style (Unbroken)

variable {S : String → Prop}

/-! ### Lines -/

/-- The colors that a line writes are as described. -/
def Line.Paints (S : String → Prop) : Line → Prop
  | .player p => p.Paints S
  | .note n | .noteStart n => Fits S n.color
  | .highlight _ _ color _ => Fits S color
  | .playerIs _ change | .timeIs _ change => Fits S change.color
  | _ => True

namespace Line

lemma yields_color? : (Scan.optional Token.plainColor).Yields (Fits Unbroken) :=
  Color.yields_optional Token.yields_plainColor

/-- Further properties of a highlight do not count. -/
lemma yields_highlightColor : highlightColor.Yields Unbroken := by
  unfold highlightColor
  exact Token.yields_plainColor.bindOf fun c hc => Yields.bind fun _ => Yields.pure hc

lemma yields_changeHead : changeHead.Yields fun c => Fits Unbroken c.color := by
  unfold changeHead
  iterate 5 refine Yields.bind fun _ => ?_
  refine yields_color?.bindOf fun c hc => ?_
  iterate 3 refine Yields.bind fun _ => ?_
  exact Yields.pure hc

lemma yields_noteHead : noteHead.Yields fun n => Fits Unbroken n.color := by
  unfold noteHead
  iterate 8 refine Yields.bind fun _ => ?_
  exact yields_color?.bindOf fun c hc => Yields.bind fun _ => Yields.pure hc

lemma yields_paints_players : ∀ p ∈ [readPlayer, readClock, readBinary, readAnalog],
    p.Yields (Paints Unbroken) := by
  simp only [List.forall_mem_cons]
  refine ⟨?_, ?_, ?_, ?_, List.forall_mem_nil _⟩
  · unfold readPlayer
    iterate 7 refine Yields.bind fun _ => ?_
    refine yields_color?.bindOf fun c hc => Yields.bind fun _ => ?_
    exact Yields.pure ⟨hc, List.forall_mem_nil _⟩
  · unfold readClock
    iterate 11 refine Yields.bind fun _ => ?_
    exact Yields.pure ⟨fits_none, List.forall_mem_nil _⟩
  · unfold readBinary
    iterate 5 refine Yields.bind fun _ => ?_
    refine yields_color?.bindOf fun c hc => Yields.bind fun _ => ?_
    exact Yields.pure ⟨hc, List.forall_mem_nil _⟩
  · unfold readAnalog
    iterate 4 refine Yields.bind fun _ => ?_
    refine Yields.bindOf (Yields.optional (Q := fun _ => True) ?_) fun range _ => ?_
    · iterate 8 refine Yields.bind fun _ => ?_
      exact Yields.pure trivial
    iterate 3 refine Yields.bind fun _ => ?_
    exact Yields.pure ⟨fits_none, List.forall_mem_nil _⟩

lemma yields_paints_changes : ∀ p ∈ [readNote, readNoteStart, readHighlight, readPlayerIs, readTimeIs],
    p.Yields (Paints Unbroken) := by
  simp only [List.forall_mem_cons]
  refine ⟨?_, ?_, ?_, ?_, ?_, List.forall_mem_nil _⟩
  · unfold readNote
    refine yields_noteHead.bindOf fun n hn => ?_
    iterate 3 refine Yields.bind fun _ => ?_
    exact Yields.pure hn
  · exact yields_noteHead.bindOf fun n hn => Yields.bind fun _ => Yields.pure hn
  · unfold readHighlight
    iterate 10 refine Yields.bind fun _ => ?_
    exact (Color.yields_optional yields_highlightColor).bindOf fun c hc =>
      Yields.bind fun _ => Yields.pure hc
  · unfold readPlayerIs
    refine Yields.bind fun _ => yields_changeHead.bindOf fun head hhead => ?_
    exact Yields.bind fun _ => Yields.pure hhead
  · exact Yields.bind fun _ => yields_changeHead.bindOf fun head hhead => Yields.pure hhead

/-- The forms without colors. -/
lemma yields_paints_uncolored : ∀ p ∈ [readTitle, readCompact, readHideAxis, readHas, readConstraint,
    readMessage, readAt], p.Yields (Paints Unbroken) := by
  simp only [List.forall_mem_cons]
  refine ⟨?_, ?_, ?_, ?_, ?_, ?_, ?_, List.forall_mem_nil _⟩
  · exact Yields.bind fun _ => Yields.pure trivial
  · exact Yields.bind fun _ => Yields.bind fun _ => Yields.pure trivial
  · unfold readHideAxis
    iterate 6 refine Yields.bind fun _ => ?_
    exact Yields.pure trivial
  · unfold readHas
    iterate 5 refine Yields.bind fun _ => ?_
    dsimp only
    split <;> exact Yields.pure trivial
  · unfold readConstraint
    iterate 9 refine Yields.bind fun _ => ?_
    exact Yields.pure trivial
  · unfold readMessage
    iterate 11 refine Yields.bind fun _ => ?_
    exact Yields.pure trivial
  · unfold readAt
    iterate 4 refine Yields.bind fun _ => ?_
    split <;> exact Yields.pure trivial

/-- The colors of a line. -/
theorem paints_of_read? {s : List Char} {l : Line} (h : read? s = some l) : l.Paints Unbroken := by
  have hplayers := yields_paints_players
  have hchanges := yields_paints_changes
  have huncolored := yields_paints_uncolored
  simp only [List.forall_mem_cons] at hplayers hchanges huncolored
  obtain ⟨hplayer, hclock, hbinary, hanalog, -⟩ := hplayers
  obtain ⟨hnote, hnoteStart, hhighlight, hplayerIs, htimeIs, -⟩ := hchanges
  obtain ⟨htitle, hcompact, hhideAxis, hhas, hconstraint, hmessage, hat, -⟩ := huncolored
  have hforms : ∀ p ∈ forms, p.Yields (Paints Unbroken) := by
    simp only [forms, List.forall_mem_cons]
    exact ⟨htitle, hcompact, hhideAxis, hplayer, hclock, hbinary, hanalog, hhas, hnote, hnoteStart,
      hhighlight, hconstraint, hmessage, hat, hplayerIs, htimeIs, List.forall_mem_nil _⟩
  exact (Yields.anyOf hforms).of_whole h

end Line

/-! ### Readers -/

namespace Player
namespace Paints

variable {p more : Player}

lemma redeclare (h : p.Paints S) (hmore : more.Paints S) : (p.redeclare more).Paints S :=
  ⟨hmore.own.or h.own, h.changes⟩

lemma addState (h : p.Paints S) (state : String) : (p.addState state).Paints S := by
  unfold Player.addState
  split
  · exact h
  · exact ⟨h.own, h.changes⟩

lemma record (h : p.Paints S) {c : StateChange} (hc : Fits S c.color) : (p.record c).Paints S := by
  have hadd : ({ p with changes := p.changes ++ [c] } : Player).Paints S :=
    ⟨h.own, List.forall_mem_append.2 ⟨h.changes, List.forall_mem_singleton.2 hc⟩⟩
  unfold Player.record
  dsimp only
  split
  · exact hadd
  · exact hadd.addState c.state

lemma sortChanges (h : p.Paints S) : p.sortChanges.Paints S :=
  ⟨h.own, fun c hc => h.changes c (List.mem_mergeSort.1 hc)⟩

end Paints
end Player

/-- The colors so far are as described. -/
structure Reader.Paints (S : String → Prop) (r : Reader) : Prop where
  diagram : r.diagram.Paints S
  note : ∀ x, r.note = some x → Fits S x.1.color

namespace Reader
namespace Paints

variable {r r' : Reader}

/-- The diagram of a reader changes. -/
lemma withDiagram (h : r.Paints S) {d : Diagram} (hd : d.Paints S) :
    ({ r with diagram := d } : Reader).Paints S :=
  { h with diagram := hd }

lemma changePlayer (h : r.Paints S) (code : String) {f : Player → Player}
    (hf : ∀ p, p.Paints S → (f p).Paints S) : (r.changePlayer code f).Paints S :=
  h.withDiagram { h.diagram with players := h.diagram.players.modify hf }

lemma mention (h : r.Paints S) (code : String) : (r.mention code).Paints S := by
  unfold Reader.mention
  split
  · exact h
  · refine h.withDiagram { h.diagram with players := h.diagram.players.insert ?_ }
    exact ⟨fits_none, List.forall_mem_nil _⟩

lemma declare (h : r.Paints S) {p : Player} (hp : p.Paints S) : (r.declare p).Paints S := by
  unfold Reader.declare
  split
  · exact h.changePlayer p.code fun old hold => hold.redeclare hp
  · exact h.withDiagram { h.diagram with players := h.diagram.players.insert hp }

lemma record (h : r.Paints S) (code : String) {c : ChangeHead} (hc : Fits S c.color) :
    (r.record code c).Paints S :=
  h.changePlayer code fun _ hp => hp.record hc

lemma addNote (h : r.Paints S) {n : PlayerNote} (hn : Fits S n.color) : (r.addNote n).Paints S :=
  h.withDiagram { h.diagram with
    notes := List.forall_mem_append.2 ⟨h.diagram.notes, List.forall_mem_singleton.2 hn⟩ }

lemma goTo (h : r.Paints S) {t : TimeToken} (hgo : r.goTo t = .ok r') : r'.Paints S := by
  obtain ⟨time, -, hgo⟩ := Fault.bind_eq_ok_iff.1 hgo
  obtain rfl := Except.ok.inj hgo
  exact { h with }

lemma nameNow (h : r.Paints S) (name : Option String) : (r.nameNow name).Paints S := by
  cases name with
  | none => exact h
  | some code => exact h.withDiagram { h.diagram with }

/-- A line with a meaning adds its colors. -/
lemma apply (h : r.Paints S) {l : Line} (hl : l.Paints S) (happly : r.apply l = .ok r') :
    r'.Paints S := by
  cases l with
  | title | compact | hideAxis =>
    obtain rfl := Except.ok.inj happly
    exact h.withDiagram { h.diagram with }
  | player p =>
    obtain rfl := Except.ok.inj happly
    exact h.declare hl
  | hasLabel player state label =>
    obtain rfl := Except.ok.inj happly
    refine h.changePlayer player fun p hp => Player.Paints.addState ?_ state
    exact ⟨hp.own, hp.changes⟩
  | hasStates player states =>
    obtain rfl := Except.ok.inj happly
    exact h.changePlayer player fun p hp =>
      List.foldlRecOn (motive := Player.Paints S) states Player.addState hp
        fun p hp state _ => hp.addState state
  | note n =>
    obtain rfl := Except.ok.inj happly
    exact h.addNote hl
  | noteStart n =>
    obtain rfl := Except.ok.inj happly
    exact { h with note := fun _ hx => Option.some.inj hx ▸ hl }
  | highlight start stop color caption =>
    obtain ⟨a, -, happly⟩ := Fault.bind_eq_ok_iff.1 happly
    obtain ⟨b, -, happly⟩ := Fault.bind_eq_ok_iff.1 happly
    obtain rfl := Except.ok.inj happly
    exact h.withDiagram { h.diagram with
      highlights := List.forall_mem_append.2
        ⟨h.diagram.highlights, List.forall_mem_singleton.2 hl⟩ }
  | constraint player start stop label =>
    obtain ⟨a, -, happly⟩ := Fault.bind_eq_ok_iff.1 happly
    obtain ⟨b, -, happly⟩ := Fault.bind_eq_ok_iff.1 happly
    obtain rfl := Except.ok.inj happly
    exact h.withDiagram { h.diagram with }
  | message source sourceTime target targetTime label =>
    have hends := (h.mention source).mention target
    obtain ⟨a, -, happly⟩ := Fault.bind_eq_ok_iff.1 happly
    obtain ⟨b, -, happly⟩ := Fault.bind_eq_ok_iff.1 happly
    obtain rfl := Except.ok.inj happly
    exact hends.withDiagram { hends.diagram with }
  | atTime t name =>
    obtain ⟨r₁, hgo, happly⟩ := Fault.bind_eq_ok_iff.1 happly
    obtain rfl := Except.ok.inj happly
    have hcurrent : ({ r₁ with current := none } : Reader).Paints S := { h.goTo hgo with }
    exact hcurrent.nameNow name
  | atPlayer code =>
    obtain rfl := Except.ok.inj happly
    split
    · exact { h with }
    · exact h
  | playerIs code c =>
    obtain rfl := Except.ok.inj happly
    exact (h.mention code).record code hl
  | timeIs t c =>
    unfold Reader.apply at happly
    dsimp only at happly
    split at happly
    · obtain rfl := Except.ok.inj happly
      exact h
    · next code _ =>
      obtain ⟨r₁, hgo, happly⟩ := Fault.bind_eq_ok_iff.1 happly
      obtain rfl := Except.ok.inj happly
      exact (h.goTo hgo).record code hl

/-- A line keeps what is known of the colors so far. -/
theorem step (h : r.Paints Unbroken) {line : SourceLine} (hstep : r.step line = .ok r') :
    r'.Paints Unbroken := by
  unfold Reader.step at hstep
  split at hstep
  · next n lines hnote =>
    have hn : Fits Unbroken n.color := h.note _ hnote
    obtain rfl := Except.ok.inj hstep
    split
    · have hclosed : ({ r with note := none } : Reader).Paints Unbroken :=
        { h with note := fun x hx => absurd hx.symm (Option.some_ne_none x) }
      exact hclosed.addNote (n := { n with text := Label.dedent lines }) hn
    · exact { h with note := fun _ hx => Option.some.inj hx ▸ hn }
  · split at hstep
    · next l hl => exact h.apply (Line.paints_of_read? hl) hstep
    · obtain rfl := Except.ok.inj hstep
      exact h

lemma foldlM (h : r.Paints Unbroken) {lines : List SourceLine}
    (hlines : lines.foldlM Reader.step r = .ok r') : r'.Paints Unbroken := by
  induction lines generalizing r with
  | nil =>
    obtain rfl := Except.ok.inj hlines
    exact h
  | cons line rest ih =>
    obtain ⟨r₁, hstep, hrest⟩ := Fault.bind_eq_ok_iff.1 hlines
    exact ih (h.step hstep) hrest

end Paints
end Reader

/-- The colors of a timing diagram that is read hold no semicolons. -/
theorem Diagram.paints_read {text : String} {d : Diagram} (h : read text = .ok d) :
    d.Paints Unbroken := by
  obtain ⟨r, hr, h⟩ := Fault.bind_eq_ok_iff.1 h
  obtain rfl := Except.ok.inj h
  have hstart : ({} : Reader).Paints Unbroken :=
    ⟨⟨Keyed.all_empty, List.forall_mem_nil _, List.forall_mem_nil _⟩,
      fun x hx => absurd hx.symm (Option.some_ne_none x)⟩
  have hdiagram := (hstart.foldlM hr).diagram
  refine { hdiagram with players := fun code p hp => ?_ }
  obtain ⟨p', hp', rfl⟩ := Option.map_eq_some_iff.1 ((Keyed.get?_map _ _ _).symm.trans hp)
  exact (hdiagram.players code p' hp').sortChanges

end Timing
end UmlDraw
