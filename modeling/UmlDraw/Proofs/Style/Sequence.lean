/-
# The styles of sequence diagrams

A sheet carries colors: in its cells, in the open activations, whose bars are drawn later, and in the
participants of its columns, whose headers are drawn last.

The main statements are

* `Sequence.Sheet.Paints.draw` and the two lemmas beside it: elements keep what is known of the colors,
  by induction on the element;
* `Sequence.Diagram.isPainted_of_mem_draw`: what a sequence diagram is drawn with.
-/
import UmlDraw.Proofs.Data.Outcome
import UmlDraw.Proofs.Drawing.Sequence
import UmlDraw.Proofs.Style.Sketch

namespace UmlDraw

/-- The style of a cell is made of known entries. -/
def Cell.IsPainted (S : String → Prop) (c : Cell) : Prop :=
  ∃ style : Style, style.IsKnown S ∧ c.style = style.render

namespace Sequence

open Style

variable {S : String → Prop}

/-! ### Styles -/

lemma isKnown_headerStyle {p : Participant} (h : Color.Fits S p.color) :
    (headerStyle p).IsKnown S := by
  have hshape : Knows S p.kind.shapeEntries := by
    cases p.kind
    all_goals
      unfold ParticipantKind.shapeEntries
      repeat constructor
  have hfill := h.fillColor "#dae8fc" (.fillColor (by decide))
  refine (knows_of hshape).update ?_
  repeat first | exact hfill | constructor

lemma isKnown_lifelineStyle : lifelineStyle.IsKnown S :=
  knows_of (by repeat constructor)

lemma isKnown_barStyle {color : Option String} (h : Color.Fits S color) :
    (barStyle color).IsKnown S := by
  have hfill := h.fillColor "#f5f5f5" (.fillColor (by decide))
  refine knows_of ?_
  repeat first | exact hfill | constructor

lemma isKnown_noteStyle (shape : String) {color : Option String} (h : Color.Fits S color) :
    (noteStyle shape color).IsKnown S := by
  have hnote := Relation.isKnown_noteStyle h
  unfold noteStyle
  dsimp only
  split
  · exact Knows.update hnote (by repeat constructor)
  · split
    · exact Knows.update hnote (by repeat constructor)
    · exact hnote

lemma isKnown_dividerStyle : dividerStyle.IsKnown S :=
  knows_of (by repeat constructor)

lemma isKnown_delayStyle : delayStyle.IsKnown S :=
  knows_of (by repeat constructor)

lemma isKnown_frameStyle {color : Option String} (h : Color.Fits S color) :
    (frameStyle color).IsKnown S := by
  have hfill := h.fillColor "none" (.fillColor (by decide))
  refine knows_of ?_
  repeat first | exact hfill | constructor

lemma isKnown_tabStyle : tabStyle.IsKnown S :=
  knows_of (by repeat constructor)

lemma isKnown_sectionStyle : sectionStyle.IsKnown S :=
  knows_of (by repeat constructor)

lemma isKnown_referenceStyle {color : Option String} (h : Color.Fits S color) :
    (referenceStyle color).IsKnown S := by
  have hfill := h.fillColor "#f5f5f5" (.fillColor (by decide))
  refine knows_of ?_
  repeat first | exact hfill | constructor

lemma isKnown_boxStyle {color : Option String} (h : Color.Fits S color) :
    (boxStyle color).IsKnown S := by
  have hcolor : Knows S (boxColorEntries color) := by
    unfold boxColorEntries
    cases hs : Color.normalize? color with
    | none => exact .nil
    | some s => exact .cons (.color (by decide) (h s hs)) (by repeat constructor)
  exact (knows_of (by repeat constructor)).update hcolor

lemma isKnown_destroyStyle : destroyStyle.IsKnown S :=
  knows_of (by repeat constructor)

lemma isKnown_titleStyle : titleStyle.IsKnown S :=
  knows_of (by repeat constructor)

namespace Arrow

lemma knows_headEntries (a : Arrow) : Knows S a.headEntries := by
  have hstart : Known S ("startArrow", .text (headShape a.startHead a.startCircle).1) := by
    unfold headShape
    split
    · repeat constructor
    · cases a.startHead
      all_goals repeat constructor
  have hstop : Known S ("endArrow", .text (headShape a.endHead a.endCircle).1) := by
    unfold headShape
    split
    · repeat constructor
    · cases a.endHead
      all_goals repeat constructor
  unfold headEntries
  repeat first | exact hstart | exact hstop | constructor

lemma isKnown_style {a : Arrow} (h : Color.Fits S a.color) (toSelf : Bool) :
    (a.style toSelf).IsKnown S := by
  have hbody : Knows S (bodyEntries a.body) := by
    cases a.body
    all_goals
      unfold bodyEntries
      repeat constructor
  have hcolor : Knows S a.colorEntries := by
    unfold colorEntries
    cases hs : Color.normalize? a.color with
    | none => exact .nil
    | some s =>
      exact .cons (.color (by decide) (h s hs)) (.cons (.color (by decide) (h s hs)) .nil)
  have hself : Knows S (selfEntries toSelf) := by
    cases toSelf
    all_goals
      unfold selfEntries
      repeat constructor
  exact knows_of (((a.knows_headEntries.append hbody).append hcolor).append hself)

end Arrow

/-! ### The colors of elements -/

/-- The colors of an element that holds no elements of its own. -/
def plainColors : Element → List (Option String)
  | .message m => [m.arrow.color, m.activationColor, m.note.bind ArrowNote.color]
  | .border m => [m.arrow.color]
  | .life e => [e.color]
  | .note n => [n.color]
  | .reference r => [r.color]
  | _ => []

mutual

/-- The colors of an element. -/
def colorsOf : Element → List (Option String)
  | .fragment ⟨_, _, color, sections⟩ => color :: colorsOfSections sections
  | e => plainColors e

/-- The colors of the elements of sections. -/
def colorsOfSections : List (Section Element) → List (Option String)
  | [] => []
  | ⟨_, elements⟩ :: rest => colorsOfAll elements ++ colorsOfSections rest

/-- The colors of elements. -/
def colorsOfAll : List Element → List (Option String)
  | [] => []
  | e :: rest => colorsOf e ++ colorsOfAll rest

end

/-- The colors of a diagram are as described. -/
structure Diagram.Paints (S : String → Prop) (d : Diagram) : Prop where
  participants : Keyed.All (fun p => Color.Fits S p.color) d.participants
  elements : ∀ color ∈ colorsOfAll d.elements, Color.Fits S color
  boxes : ∀ b ∈ d.boxes, Color.Fits S b.color

/-! ### Sheets -/

lemma Layers.mem_all_add {l : Layers} {layer : Layer} {c c' : Cell} :
    c' ∈ (l.add layer c).all ↔ c' = c ∨ c' ∈ l.all := by
  cases layer
  all_goals
    simp only [Layers.add, Layers.all, List.mem_append, List.mem_singleton]
    tauto

namespace Sheet

/-- The styles on a sheet, and the colors that it keeps for later, are as described. -/
structure Paints (S : String → Prop) (s : Sheet) : Prop where
  cells : ∀ c ∈ s.layers.all, c.IsPainted S
  bars : ∀ x ∈ s.bars, ∀ b ∈ x.2, Color.Fits S b.color
  columns : ∀ c ∈ s.columns, Color.Fits S c.participant.color

namespace Paints

variable {s s' : Sheet} {α : Type}

/-- What is known of a sheet apart from cells and colors may change. -/
lemma of_eq (h : s.Paints S) (hlayers : s'.layers = s.layers) (hbars : s'.bars = s.bars)
    (hcolumns : s'.columns = s.columns) : s'.Paints S where
  cells := hlayers ▸ h.cells
  bars := hbars ▸ h.bars
  columns := hcolumns ▸ h.columns

lemma foldl {f : Sheet → α → Sheet} {l : List α} (h : s.Paints S)
    (hf : ∀ s, ∀ a ∈ l, s.Paints S → (f s a).Paints S) : (l.foldl f s).Paints S :=
  List.foldlRecOn l f h fun s hs a ha => hf s a ha hs

lemma ite {b : Bool} (h : s.Paints S) (h' : s'.Paints S) : (if b then s else s').Paints S := by
  cases b with
  | true => exact h
  | false => exact h'

lemma put (h : s.Paints S) (layer : Layer) {c : Cell} (hc : c.IsPainted S) :
    (s.put layer c).Paints S where
  cells := by
    intro c' hc'
    rcases Layers.mem_all_add.1 hc' with rfl | hc'
    · exact hc
    · exact h.cells c' hc'
  bars := h.bars
  columns := h.columns

lemma shape (h : s.Paints S) {style : Style} (hstyle : style.IsKnown S) (layer : Layer)
    (value : String) (x y width height : Number) :
    (s.shape layer value style x y width height).Paints S :=
  h.put layer ⟨style, hstyle, rfl⟩

lemma line (h : s.Paints S) {style : Style} (hstyle : style.IsKnown S) (layer : Layer)
    (value : String) (start stop : Point) (points : List Point) :
    (s.line layer value style start stop points).Paints S :=
  h.put layer ⟨style, hstyle, rfl⟩

lemma advance (h : s.Paints S) (distance : Number) : (s.advance distance).Paints S :=
  h.of_eq rfl rfl rfl

lemma reach (h : s.Paints S) (y : Number) : (s.reach y).Paints S :=
  h.of_eq rfl rfl rfl

lemma forget (h : s.Paints S) : s.forget.Paints S :=
  h.of_eq rfl rfl rfl

lemma expect (h : s.Paints S) (code : String) : (s.expect code).Paints S :=
  h.of_eq rfl rfl rfl

/-- The open activations of a participant have colors as described. -/
lemma barsOf (h : s.Paints S) (code : String) : ∀ b ∈ s.barsOf code, Color.Fits S b.color := by
  unfold Sheet.barsOf
  cases hbars : s.bars.lookup code with
  | none => exact List.forall_mem_nil _
  | some bars =>
    obtain ⟨_, _, hsplit, -⟩ := List.lookup_eq_some_iff.1 hbars
    exact h.bars (code, bars) (hsplit ▸ List.mem_append_right _ List.mem_cons_self)

lemma setBars (h : s.Paints S) (code : String) {bars : List Bar}
    (hbars : ∀ b ∈ bars, Color.Fits S b.color) : (s.setBars code bars).Paints S where
  cells := h.cells
  bars := by
    refine List.forall_mem_map.2 ?_
    rintro ⟨c, bs⟩ hmem
    dsimp only
    split
    · exact hbars
    · exact h.bars _ hmem
  columns := h.columns

lemma changeColumn (h : s.Paints S) (code : String) {f : Column → Column}
    (hf : ∀ c, (f c).participant = c.participant) : (s.changeColumn code f).Paints S where
  cells := h.cells
  bars := h.bars
  columns := by
    refine List.forall_mem_map.2 fun c hc => ?_
    split
    · rw [hf]
      exact h.columns c hc
    · exact h.columns c hc

lemma activate (h : s.Paints S) (code : String) (y : Number) (caller : Option String)
    {color : Option String} (hcolor : Color.Fits S color) :
    (s.activate code y caller color).Paints S :=
  h.setBars code (List.forall_mem_cons.2 ⟨hcolor, h.barsOf code⟩)

lemma deactivate (h : s.Paints S) (code : String) (y : Number) : (s.deactivate code y).Paints S := by
  have hbars := h.barsOf code
  unfold Sheet.deactivate
  cases hcode : s.barsOf code with
  | nil => exact h
  | cons bar rest =>
    rw [hcode] at hbars
    obtain ⟨hbar, hrest⟩ := List.forall_mem_cons.1 hbars
    exact (h.setBars code hrest).shape (isKnown_barStyle hbar) _ _ _ _ _ _

lemma deactivateAll (h : s.Paints S) (code : String) (y : Number) :
    (s.deactivateAll code y).Paints S :=
  h.foldl fun _ _ _ hs => hs.deactivate code y

lemma destroy (h : s.Paints S) (code : String) (y : Number) : (s.destroy code y).Paints S := by
  have hended : ((s.deactivateAll code y).changeColumn code fun c =>
      { c with endY := some y }).Paints S :=
    (h.deactivateAll code y).changeColumn code fun _ => rfl
  exact hended.shape isKnown_destroyStyle _ _ _ _ _ _

lemma beforeMessage (h : s.Paints S) (shortcut source : Option String) (target : String)
    (y : Number) {color : Option String} (hcolor : Color.Fits S color) :
    (s.beforeMessage shortcut source target y color).Paints S := by
  unfold Sheet.beforeMessage
  split
  · exact h.activate _ _ _ hcolor
  · split
    · exact h.expect _
    · exact h

lemma afterMessage (h : s.Paints S) (shortcut : Option String) (source target : String)
    (y : Number) : (s.afterMessage shortcut source target y).Paints S := by
  unfold Sheet.afterMessage
  split
  · exact h.deactivate _ _
  · split
    · exact h.destroy _ _
    · exact h

lemma row (h : s.Paints S) (isParallel : Bool) (label : String) :
    (s.row isParallel label).1.Paints S := by
  unfold Sheet.row
  split
  · exact h
  · exact h.of_eq rfl rfl rfl

lemma placeCreated (h : s.Paints S) (code : String) (y : Number) :
    (s.placeCreated code y).1.Paints S := by
  unfold Sheet.placeCreated
  split
  · have hexpected : ({ s with expected := s.expected.filter (· != code) } : Sheet).Paints S :=
      h.of_eq rfl rfl rfl
    have hmoved : (({ s with expected := s.expected.filter (· != code) } : Sheet).changeColumn code
        fun c => { c with headerY := y - Number.half c.height }).Paints S :=
      hexpected.changeColumn code fun _ => rfl
    exact hmoved.reach _
  · exact h

lemma number (h : s.Paints S) (label : String) : (s.number label).1.Paints S := by
  unfold Sheet.number
  dsimp only
  split
  · exact h.of_eq rfl rfl rfl
  · exact h

lemma renumber (h : s.Paints S) (a : AutoNumber) : (s.renumber a).Paints S := by
  unfold Sheet.renumber
  dsimp only
  split
  · exact h.of_eq rfl rfl rfl
  · exact h.of_eq rfl rfl rfl

lemma arrowNote (h : s.Paints S) {note : ArrowNote} (hnote : Color.Fits S note.color)
    (source target : String) (y : Number) : (s.arrowNote note source target y).Paints S :=
  (h.shape (isKnown_noteStyle "note" hnote) _ _ _ _ _ _).reach _

lemma selfMessage (h : s.Paints S) {m : Message} (hm : Color.Fits S m.arrow.color)
    (code label : String) (y : Number) : (s.selfMessage m code label y).Paints S :=
  (h.line (Arrow.isKnown_style hm true) _ _ _ _ _).advance _

lemma crossMessage (h : s.Paints S) {m : Message} (hm : Color.Fits S m.arrow.color)
    (source target label : String) (y : Number) :
    (s.crossMessage m source target label y).Paints S :=
  (h.placeCreated target y).line (Arrow.isKnown_style hm false) _ _ _ _ _

lemma furtherTarget (h : s.Paints S) {m : Message} (hm : Color.Fits S m.arrow.color)
    (source : String) (y : Number) (extra : String) :
    (Sheet.furtherTarget m source y s extra).Paints S := by
  unfold Sheet.furtherTarget
  split
  · exact h.line (Arrow.isKnown_style hm false) _ _ _ _ _
  · exact h

lemma messageBetween (h : s.Paints S) {m : Message}
    (hm : ∀ color ∈ plainColors (.message m), Color.Fits S color) (source target : String) :
    (s.messageBetween m source target).Paints S := by
  have harrowColor : Color.Fits S m.arrow.color := hm _ (by simp [plainColors])
  unfold Sheet.messageBetween
  have hrow := h.row m.isParallel m.label
  generalize s.row m.isParallel m.label = r at hrow ⊢
  obtain ⟨s₁, y⟩ := r
  have hnumber := (hrow.beforeMessage m.activation (some source) target y
    (hm m.activationColor (by simp [plainColors]))).number m.label
  dsimp only at hnumber ⊢
  generalize (s₁.beforeMessage m.activation (some source) target y m.activationColor).number
    m.label = r at hnumber ⊢
  obtain ⟨s₂, label⟩ := r
  have harrow := ite (b := source == target)
    (hnumber.selfMessage harrowColor source (Label.html label) y)
    (hnumber.crossMessage harrowColor source target (Label.html label) y)
  have hfurther := harrow.foldl (l := m.multicast)
    fun _ extra _ hs => hs.furtherTarget harrowColor source y extra
  dsimp only at hfurther ⊢
  generalize List.foldl (Sheet.furtherTarget m source y) _ m.multicast = s₃ at hfurther ⊢
  -- `s₃` holds the arrows; its note and the bars that end here come behind them
  have hend : ∀ s₄ : Sheet, s₄.Paints S →
      (if m.isReturn then (s₄.afterMessage m.activation source target y).deactivate source y
        else s₄.afterMessage m.activation source target y).Paints S := by
    intro s₄ hs₄
    have hafter := hs₄.afterMessage m.activation source target y
    exact ite (hafter.deactivate source y) hafter
  cases hnote : m.note with
  | none => exact (hend _ hfurther).of_eq rfl rfl rfl
  | some note =>
    have hcolor : Color.Fits S note.color := hm _ (by simp [plainColors, hnote])
    exact (hend _ (hfurther.arrowNote hcolor source target y)).of_eq rfl rfl rfl

lemma message (h : s.Paints S) {m : Message}
    (hm : ∀ color ∈ plainColors (.message m), Color.Fits S color) : (s.message m).Paints S := by
  unfold Sheet.message
  split
  · exact h
  · split
    · exact h.messageBetween hm _ _
    · exact h

lemma border (h : s.Paints S) {m : BorderMessage} (hm : Color.Fits S m.arrow.color) :
    (s.border m).Paints S := by
  unfold Sheet.border
  split
  · exact h
  · have hrow := h.row m.isParallel m.label
    generalize s.row m.isParallel m.label = r at hrow ⊢
    obtain ⟨s₁, y⟩ := r
    have hbefore := ite (b := m.kind.isIncoming)
      (hrow.beforeMessage m.activation none m.participant y Color.fits_none) hrow
    dsimp only at hbefore ⊢
    generalize (if m.kind.isIncoming then
      s₁.beforeMessage m.activation none m.participant y none else s₁) = s₂ at hbefore ⊢
    have hnumber := hbefore.number m.label
    generalize s₂.number m.label = r at hnumber ⊢
    obtain ⟨s₃, label⟩ := r
    dsimp only at hnumber ⊢
    generalize hs₄ : s₃.line _ _ _ _ _ _ = s₄
    have harrow : s₄.Paints S := hs₄ ▸ hnumber.line (Arrow.isKnown_style hm false) _ _ _ _ _
    have hend := ite (b := !m.kind.isIncoming && closes m.activation)
      (harrow.deactivate m.participant y)
      (ite (b := m.activation == some "!!") (harrow.destroy m.participant y) harrow)
    exact hend.of_eq rfl rfl rfl

/-- A message may get another place. -/
lemma moveMessage (h : s.Paints S) (place : Nat) (f : Cell → Option Geometry) :
    ({ s with layers := { s.layers with
        messages := s.layers.messages.modify place fun c => { c with geometry := f c } } } :
      Sheet).Paints S where
  cells := by
    have hstyle : ∀ c : Cell, Cell.style { c with geometry := f c } = c.style := fun _ => rfl
    intro c hc
    have hmem : c.style ∈ s.layers.all.map Cell.style := by
      simpa only [Layers.all, List.map_append, map_modify hstyle] using
        List.mem_map_of_mem (f := Cell.style) hc
    obtain ⟨c', hc', heq⟩ := List.mem_map.1 hmem
    obtain ⟨style, hknown, hrender⟩ := h.cells c' hc'
    exact ⟨style, hknown, heq ▸ hrender⟩
  bars := h.bars
  columns := h.columns

lemma snap (h : s.Paints S) (code : String) : (s.snap code).Paints S := by
  unfold Sheet.snap
  cases s.lastCell with
  | none => exact h
  | some place => exact (h.moveMessage place _).of_eq rfl rfl rfl

lemma life (h : s.Paints S) {e : LifeEvent} (he : Color.Fits S e.color) : (s.life e).Paints S := by
  unfold Sheet.life
  split
  · exact h
  · cases e.kind with
    | activate =>
      dsimp only
      split
      · split
        · exact (h.activate _ _ _ he).snap _
        · exact h.activate _ _ _ he
      · exact h.activate _ _ _ he
    | deactivate =>
      dsimp only
      split
      · exact h.deactivate _ _
      · exact h.deactivate _ _
    | destroy => exact (h.destroy _ _).reach _
    | create => exact h.expect _
    | other => exact h

lemma note (h : s.Paints S) {n : Note} (hn : Color.Fits S n.color) : (s.note n).Paints S := by
  have hstyle : (noteStyle (if n.isAcross then { n with participants := [] } else n).shape
      (if n.isAcross then { n with participants := [] } else n).color).IsKnown S := by
    split
    · exact isKnown_noteStyle _ hn
    · exact isKnown_noteStyle _ hn
  exact ((h.shape hstyle _ _ _ _ _ _).advance _).forget

lemma divider (h : s.Paints S) (label : String) : (s.divider label).Paints S :=
  (((h.advance _).shape isKnown_dividerStyle _ _ _ _ _ _).advance _).forget

lemma delay (h : s.Paints S) (label : String) : (s.delay label).Paints S :=
  ((ite h (h.shape isKnown_delayStyle _ _ _ _ _ _)).advance _).forget

lemma reference (h : s.Paints S) {r : Reference} (hr : Color.Fits S r.color) :
    (s.reference r).Paints S :=
  ((h.shape (isKnown_referenceStyle hr) _ _ _ _ _ _).advance _).forget

lemma plain (h : s.Paints S) {e : Element} (he : ∀ color ∈ plainColors e, Color.Fits S color) :
    (s.plain e).Paints S := by
  cases e with
  | message m => exact h.message he
  | border m => exact h.border (he _ List.mem_cons_self)
  | life e => exact h.life (he _ List.mem_cons_self)
  | fragment f => exact h
  | note n => exact h.note (he _ List.mem_cons_self)
  | divider label => exact h.divider label
  | delay label => exact h.delay label
  | space size => exact (h.advance _).forget
  | reference r => exact h.reference (he _ List.mem_cons_self)
  | autoNumber a => exact h.renumber a

/-- Frames around and behind those that were drawn before. -/
lemma frame (h : s.Paints S) {f : Fragment Element} (hf : Color.Fits S f.color) (place : Nat)
    (top bottom : Number) (sides : Number × Number) (lines : List (Number × String)) :
    (s.frame f place top bottom sides lines).Paints S := by
  unfold Sheet.frame
  obtain ⟨left, right⟩ := sides
  dsimp only
  generalize hinner : List.foldl _ _ lines = inner
  have hempty : ({ s with layers := { s.layers with frames := [] } } : Sheet).Paints S := by
    refine ⟨fun c hc => h.cells c ?_, h.bars, h.columns⟩
    simp only [Layers.all, List.mem_append, List.not_mem_nil] at hc ⊢
    tauto
  have hdrawn : inner.Paints S := by
    rw [← hinner]
    refine ((hempty.shape (isKnown_frameStyle hf) _ _ _ _ _ _).shape isKnown_tabStyle _ _ _ _ _
      _).foldl ?_
    intro t line _ ht
    exact ht.line isKnown_sectionStyle _ _ _ _ _
  refine ⟨fun c hc => ?_, hdrawn.bars, hdrawn.columns⟩
  have hframes : ∀ c ∈ s.layers.frames, c.IsPainted S := fun c hc =>
    h.cells c (by simp [Layers.all, hc])
  have hcells := hdrawn.cells c
  simp only [Layers.all, List.mem_append] at hc hcells
  rcases hc with ((((hc | (hc | hc) | hc) | hc) | hc) | hc) | hc
  · exact hcells (by simp [hc])
  · exact hframes c (List.mem_of_mem_take hc)
  · exact hcells (by simp [hc])
  · exact hframes c (List.mem_of_mem_drop hc)
  all_goals exact hcells (by simp [hc])

end Paints

mutual

lemma Paints.draw (depth : Nat) {s : Sheet} (h : s.Paints S) (e : Element)
    (he : ∀ color ∈ colorsOf e, Color.Fits S color) : (draw depth s e).Paints S := by
  cases e with
  | fragment f =>
    obtain ⟨kind, label, color, sections⟩ := f
    unfold colorsOf at he
    obtain ⟨hcolor, hinside⟩ := List.forall_mem_cons.1 he
    unfold Sheet.draw
    have hsections := Paints.drawSections (depth + 1) (h.advance 30).forget true sections hinside
    exact ((hsections.advance 10).advance 10).frame hcolor _ _ _ _ _
  | _ =>
    unfold Sheet.draw
    unfold colorsOf at he
    exact h.plain he

lemma Paints.drawSections (depth : Nat) {s : Sheet} (h : s.Paints S) (isFirst : Bool) :
    (sections : List (Section Element)) →
      (∀ color ∈ colorsOfSections sections, Color.Fits S color) →
      (drawSections depth s isFirst sections).1.Paints S
  | [], _ => h
  | ⟨condition, elements⟩ :: rest, hcolors => by
    unfold colorsOfSections at hcolors
    obtain ⟨helements, hrest⟩ := List.forall_mem_append.1 hcolors
    unfold Sheet.drawSections
    have hline := Paints.ite (b := isFirst) h (h.advance 20)
    exact Paints.drawSections depth (Paints.drawAll depth hline elements helements) false rest hrest

lemma Paints.drawAll (depth : Nat) {s : Sheet} (h : s.Paints S) :
    (elements : List Element) → (∀ color ∈ colorsOfAll elements, Color.Fits S color) →
      (drawAll depth s elements).Paints S
  | [], _ => h
  | e :: rest, hcolors => by
    unfold colorsOfAll at hcolors
    obtain ⟨he, hrest⟩ := List.forall_mem_append.1 hcolors
    exact Paints.drawAll depth (Paints.draw depth h e he) rest hrest

end

namespace Paints

variable {s : Sheet}

lemma finishColumn (h : s.Paints S) (hideFootbox : Bool) (endY : Number) {c : Column}
    (hc : Color.Fits S c.participant.color) :
    (Sheet.finishColumn hideFootbox endY s c).1.Paints S := by
  have hheader := isKnown_headerStyle hc
  have hlifeline := (h.shape hheader .shapes (headerLabel c.participant) c.left c.headerY c.width
    c.height).line isKnown_lifelineStyle .lifelines "" ⟨c.center, c.lifelineTop⟩
      ⟨c.center, c.endY.getD endY⟩ []
  unfold Sheet.finishColumn
  dsimp only
  split
  · exact hlifeline
  · exact hlifeline.shape hheader _ _ _ _ _ _

lemma box (h : s.Paints S) (footer : Number) {b : Box} (hb : Color.Fits S b.color) :
    (Sheet.box footer s b).Paints S := by
  unfold Sheet.box
  split
  · exact h
  · exact h.shape (isKnown_boxStyle hb) _ _ _ _ _ _

lemma finish (h : s.Paints S) {d : Diagram} (hd : d.Paints S) : (s.finish d).Paints S := by
  have hclosed := h.foldl (l := s.columns)
    (fun _ c _ hs => hs.deactivateAll (Column.participant c).code (s.cursor + 10))
  unfold Sheet.finish
  dsimp only
  generalize List.foldl _ s s.columns = closed at hclosed ⊢
  -- the columns are finished with the lowest foot so far beside the sheet
  have hcolumns : ∀ sy, sy.1.Paints S → (List.foldl (fun (sy : Sheet × Number) c =>
      ((Sheet.finishColumn d.hideFootbox (s.cursor + 10) sy.1 c).1,
        Number.max sy.2 (Sheet.finishColumn d.hideFootbox (s.cursor + 10) sy.1 c).2)) sy
          closed.columns).1.Paints S := by
    intro sy hsy
    exact List.foldlRecOn (motive := fun sy : Sheet × Number => sy.1.Paints S) closed.columns _ hsy
      fun sy hsy c hc => hsy.finishColumn _ _ (hclosed.columns c hc)
  exact (hcolumns (closed, s.cursor + 10) hclosed).foldl fun _ b hb hs => hs.box _ (hd.boxes b hb)

/-- The columns of participants keep their colors. -/
lemma columns_placeColumns {ps : List Participant} (h : ∀ p ∈ ps, Color.Fits S p.color)
    (needs : List Need) (top : Int) (index : Nat) (before : Option Column) :
    ∀ c ∈ placeColumns needs top index before ps, Color.Fits S c.participant.color := by
  induction ps generalizing index before with
  | nil => exact List.forall_mem_nil _
  | cons p rest ih =>
    obtain ⟨hp, hrest⟩ := List.forall_mem_cons.1 h
    exact List.forall_mem_cons.2 ⟨hp, ih hrest _ _⟩

lemma start {d : Diagram} (hd : d.Paints S) (parent : String) : (Sheet.start d parent).Paints S := by
  have hparticipants : ∀ p ∈ d.columns, Color.Fits S p.color := by
    intro p hp
    obtain ⟨⟨code, _⟩, hentry, rfl⟩ := List.mem_map.1 (List.mem_mergeSort.1 hp)
    exact hd.participants code _ (Keyed.get?_eq_some_iff.2 hentry)
  have hempty : ∀ s : Sheet, s.layers = {} → (∀ x ∈ s.bars, x.2 = []) →
      (∀ c ∈ s.columns, Color.Fits S c.participant.color) → s.Paints S := by
    intro s hlayers hbars hcolumns
    refine ⟨?_, ?_, hcolumns⟩
    · rw [hlayers]
      intro c hc
      cases hc
    · intro x hx b hb
      rw [hbars x hx] at hb
      cases hb
  have hbars : ∀ x ∈ (d.columns.map Participant.code).map fun c => (c, ([] : List Bar)), x.2 = [] :=
    List.forall_mem_map.2 fun _ _ => rfl
  have hcolumns := fun needs top => columns_placeColumns hparticipants needs top 0 none
  unfold Sheet.start
  dsimp only
  cases titleOf d with
  | none => exact hempty _ rfl hbars (hcolumns _ _)
  | some t => exact (hempty _ rfl hbars (hcolumns _ _)).shape isKnown_titleStyle _ _ _ _ _ _

end Paints
end Sheet

/-- What a sequence diagram is drawn with. -/
theorem Diagram.isPainted_of_mem_draw {d : Diagram} (hd : d.Paints S) {parent : String}
    {cells : List Cell} (h : d.draw parent = .ok cells) : ∀ c ∈ cells, c.IsPainted S := by
  obtain ⟨-, rfl⟩ := Fault.check_eq_ok_iff.1 h
  exact (((Sheet.Paints.start hd parent).drawAll 0 d.elements hd.elements).finish hd).cells

end Sequence
end UmlDraw
