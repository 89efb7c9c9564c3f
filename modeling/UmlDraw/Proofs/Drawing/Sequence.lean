/-
# Sequence diagrams are drawn without loose ends

All cells of a sequence diagram lie in the cell around the drawing, and its connectors run between
points.  Cells are numbered as they are drawn but stand in layers, so their ids are the first
numbered ids up to order.  While a frame is drawn the frames of the fragments inside are put aside;
the invariant counts such cells in.

The main statements are

* `Sequence.Sheet.Sound.draw` and the two lemmas beside it: elements keep the invariant, by
  induction on the element;
* `Sequence.Diagram.connected_draw`.
-/
import UmlDraw.Proofs.Drawing.Canvas
import UmlDraw.Sequence.Drawing

namespace UmlDraw

/-- The cell around a cell, and the shapes that it joins. -/
def Cell.ties (c : Cell) : String × Option String × Option String :=
  (c.parent, c.source, c.target)

namespace Sequence

lemma map_modify {α β : Type} {f : α → α} {g : α → β} (h : ∀ a, g (f a) = g a) (as : List α)
    (place : Nat) : (as.modify place f).map g = as.map g := by
  induction as generalizing place with
  | nil => simp
  | cons a rest ih =>
    cases place with
    | zero => simp [h]
    | succ place => simp [ih]

lemma Layers.perm_all_add (l : Layers) (layer : Layer) (c : Cell) :
    ((l.add layer c).all).Perm (c :: l.all) := by
  obtain ⟨before, after, hall, hadd⟩ : ∃ before after,
      l.all = before ++ after ∧ (l.add layer c).all = before ++ c :: after := by
    cases layer with
    | boxes => exact ⟨l.boxes, l.frames ++ l.lifelines ++ l.bars ++ l.shapes ++ l.messages,
        by simp [all], by simp [add, all]⟩
    | frames => exact ⟨l.boxes ++ l.frames, l.lifelines ++ l.bars ++ l.shapes ++ l.messages,
        by simp [all], by simp [add, all]⟩
    | lifelines => exact ⟨l.boxes ++ l.frames ++ l.lifelines, l.bars ++ l.shapes ++ l.messages,
        by simp [all], by simp [add, all]⟩
    | bars => exact ⟨l.boxes ++ l.frames ++ l.lifelines ++ l.bars, l.shapes ++ l.messages,
        by simp [all], by simp [add, all]⟩
    | shapes => exact ⟨l.boxes ++ l.frames ++ l.lifelines ++ l.bars ++ l.shapes, l.messages,
        by simp [all], by simp [add, all]⟩
    | messages => exact ⟨l.all, [], by simp, by simp [add, all]⟩
  rw [hall, hadd]
  exact List.perm_middle

namespace Sheet

/-- The cells on the sheet and those put aside lie in the cell around the drawing, are tied to no
shape, and have the first numbered ids, each once. -/
structure Sound (parent : String) (aside : List Cell) (s : Sheet) : Prop where
  parent_eq : s.parent = parent
  ids : ((s.layers.all ++ aside).map Cell.id).Perm (Document.numberedIds "puml" s.count)
  free : ∀ c ∈ s.layers.all ++ aside, c.ties = (parent, none, none)

namespace Sound

variable {parent : String} {aside aside' : List Cell} {s s' : Sheet} {α : Type}

/-- Cells may change their order and be put aside. -/
lemma of_perm (h : s.Sound parent aside) (hparent : s'.parent = s.parent)
    (hcount : s'.count = s.count)
    (hcells : (s'.layers.all ++ aside').Perm (s.layers.all ++ aside)) :
    s'.Sound parent aside' where
  parent_eq := hparent.trans h.parent_eq
  ids := hcount ▸ (hcells.map Cell.id).trans h.ids
  free := fun c hc => h.free c (hcells.mem_iff.1 hc)

/-- What is known of a sheet apart from its cells may change. -/
lemma of_eq (h : s.Sound parent aside) (hparent : s'.parent = s.parent)
    (hcount : s'.count = s.count) (hlayers : s'.layers = s.layers) : s'.Sound parent aside :=
  h.of_perm hparent hcount (by rw [hlayers])

lemma foldl {f : Sheet → α → Sheet} (h : s.Sound parent aside)
    (hf : ∀ s a, s.Sound parent aside → (f s a).Sound parent aside) (as : List α) :
    (as.foldl f s).Sound parent aside :=
  List.foldlRecOn as f h fun s hs a _ => hf s a hs

lemma ite {b : Bool} (h : s.Sound parent aside) (h' : s'.Sound parent aside) :
    (if b then s else s').Sound parent aside := by
  cases b with
  | true => exact h
  | false => exact h'

lemma put (h : s.Sound parent aside) (layer : Layer) {c : Cell} (hid : c.id = s.nextId)
    (hc : c.ties = (parent, none, none)) : (s.put layer c).Sound parent aside := by
  have hcells := (s.layers.perm_all_add layer c).append_right aside
  refine ⟨h.parent_eq, ?_, ?_⟩
  · -- the cell stands in its layer, but its id comes behind all others
    refine (hcells.map Cell.id).trans ?_
    rw [List.cons_append, List.map_cons, hid]
    show (s.nextId :: (s.layers.all ++ aside).map Cell.id).Perm
      (Document.numberedIds "puml" (s.count + 1))
    rw [Document.numberedIds_succ]
    exact (h.ids.cons s.nextId).trans (List.perm_append_singleton _ _).symm
  · intro c' hc'
    rcases List.mem_cons.1 (hcells.mem_iff.1 hc') with rfl | hc'
    · exact hc
    · exact h.free c' hc'

lemma shape (h : s.Sound parent aside) (layer : Layer) (value : String) (style : Style)
    (x y width height : Number) : (s.shape layer value style x y width height).Sound parent aside :=
  h.put layer rfl (h.parent_eq ▸ rfl)

lemma line (h : s.Sound parent aside) (layer : Layer) (value : String) (style : Style)
    (start stop : Point) (points : List Point) :
    (s.line layer value style start stop points).Sound parent aside :=
  h.put layer rfl (h.parent_eq ▸ rfl)

lemma advance (h : s.Sound parent aside) (distance : Number) :
    (s.advance distance).Sound parent aside :=
  h.of_eq rfl rfl rfl

lemma reach (h : s.Sound parent aside) (y : Number) : (s.reach y).Sound parent aside :=
  h.of_eq rfl rfl rfl

lemma forget (h : s.Sound parent aside) : s.forget.Sound parent aside :=
  h.of_eq rfl rfl rfl

lemma activate (h : s.Sound parent aside) (code : String) (y : Number)
    (caller color : Option String) : (s.activate code y caller color).Sound parent aside :=
  h.of_eq rfl rfl rfl

lemma expect (h : s.Sound parent aside) (code : String) : (s.expect code).Sound parent aside :=
  h.of_eq rfl rfl rfl

lemma deactivate (h : s.Sound parent aside) (code : String) (y : Number) :
    (s.deactivate code y).Sound parent aside := by
  unfold Sheet.deactivate
  cases s.barsOf code with
  | nil => exact h
  | cons bar rest =>
    have hbars : (s.setBars code rest).Sound parent aside := h.of_eq rfl rfl rfl
    exact hbars.shape _ _ _ _ _ _ _

lemma deactivateAll (h : s.Sound parent aside) (code : String) (y : Number) :
    (s.deactivateAll code y).Sound parent aside :=
  h.foldl (fun _ _ hs => hs.deactivate code y) _

lemma destroy (h : s.Sound parent aside) (code : String) (y : Number) :
    (s.destroy code y).Sound parent aside := by
  have hended : ((s.deactivateAll code y).changeColumn code fun c =>
      { c with endY := some y }).Sound parent aside :=
    (h.deactivateAll code y).of_eq rfl rfl rfl
  exact hended.shape _ _ _ _ _ _ _

lemma beforeMessage (h : s.Sound parent aside) (shortcut source : Option String) (target : String)
    (y : Number) (color : Option String) :
    (s.beforeMessage shortcut source target y color).Sound parent aside := by
  unfold Sheet.beforeMessage
  split
  · exact h.activate _ _ _ _
  · split
    · exact h.expect _
    · exact h

lemma afterMessage (h : s.Sound parent aside) (shortcut : Option String) (source target : String)
    (y : Number) : (s.afterMessage shortcut source target y).Sound parent aside := by
  unfold Sheet.afterMessage
  split
  · exact h.deactivate _ _
  · split
    · exact h.destroy _ _
    · exact h

lemma row (h : s.Sound parent aside) (isParallel : Bool) (label : String) :
    (s.row isParallel label).1.Sound parent aside := by
  unfold Sheet.row
  split
  · exact h
  · exact h.of_eq rfl rfl rfl

lemma placeCreated (h : s.Sound parent aside) (code : String) (y : Number) :
    (s.placeCreated code y).1.Sound parent aside := by
  unfold Sheet.placeCreated
  split
  · exact h.of_eq rfl rfl rfl
  · exact h

lemma number (h : s.Sound parent aside) (label : String) :
    (s.number label).1.Sound parent aside := by
  unfold Sheet.number
  dsimp only
  split
  · exact h.of_eq rfl rfl rfl
  · exact h

lemma renumber (h : s.Sound parent aside) (a : AutoNumber) :
    (s.renumber a).Sound parent aside := by
  unfold Sheet.renumber
  dsimp only
  split
  · exact h.of_eq rfl rfl rfl
  · exact h.of_eq rfl rfl rfl

lemma arrowNote (h : s.Sound parent aside) (note : ArrowNote) (source target : String)
    (y : Number) : (s.arrowNote note source target y).Sound parent aside :=
  (h.shape _ _ _ _ _ _ _).reach _

lemma selfMessage (h : s.Sound parent aside) (m : Message) (code label : String) (y : Number) :
    (s.selfMessage m code label y).Sound parent aside :=
  (h.line _ _ _ _ _ _).advance _

lemma crossMessage (h : s.Sound parent aside) (m : Message) (source target label : String)
    (y : Number) : (s.crossMessage m source target label y).Sound parent aside :=
  (h.placeCreated target y).line _ _ _ _ _ _

lemma furtherTarget (h : s.Sound parent aside) (m : Message) (source : String) (y : Number)
    (extra : String) : (furtherTarget m source y s extra).Sound parent aside := by
  unfold Sheet.furtherTarget
  split
  · exact h.line _ _ _ _ _ _
  · exact h

lemma messageBetween (h : s.Sound parent aside) (m : Message) (source target : String) :
    (s.messageBetween m source target).Sound parent aside := by
  unfold Sheet.messageBetween
  have hrow := h.row m.isParallel m.label
  generalize s.row m.isParallel m.label = r at hrow ⊢
  obtain ⟨s₁, y⟩ := r
  have hnumber := (hrow.beforeMessage m.activation (some source) target y m.activationColor).number
    m.label
  dsimp only at hnumber ⊢
  generalize (s₁.beforeMessage m.activation (some source) target y m.activationColor).number
    m.label = r at hnumber ⊢
  obtain ⟨s₂, label⟩ := r
  have harrow := ite (b := source == target)
    (hnumber.selfMessage m source (Label.html label) y)
    (hnumber.crossMessage m source target (Label.html label) y)
  have hfurther := harrow.foldl (fun _ extra hs => hs.furtherTarget m source y extra) m.multicast
  dsimp only at hfurther ⊢
  generalize List.foldl (Sheet.furtherTarget m source y) _ m.multicast = s₃ at hfurther ⊢
  -- `s₃` holds the arrows; its note and the bars that end here come behind them
  have hend : ∀ s₄ : Sheet, s₄.Sound parent aside →
      (if m.isReturn then (s₄.afterMessage m.activation source target y).deactivate source y
        else s₄.afterMessage m.activation source target y).Sound parent aside := by
    intro s₄ hs₄
    have hafter := hs₄.afterMessage m.activation source target y
    exact ite (hafter.deactivate source y) hafter
  cases m.note with
  | none => exact (hend _ hfurther).of_eq rfl rfl rfl
  | some note => exact (hend _ (hfurther.arrowNote note source target y)).of_eq rfl rfl rfl

lemma message (h : s.Sound parent aside) (m : Message) : (s.message m).Sound parent aside := by
  unfold Sheet.message
  split
  · exact h
  · split
    · exact h.messageBetween _ _ _
    · exact h

lemma border (h : s.Sound parent aside) (m : BorderMessage) :
    (s.border m).Sound parent aside := by
  unfold Sheet.border
  split
  · exact h
  · have hrow := h.row m.isParallel m.label
    generalize s.row m.isParallel m.label = r at hrow ⊢
    obtain ⟨s₁, y⟩ := r
    have hbefore := ite (b := m.kind.isIncoming)
      (hrow.beforeMessage m.activation none m.participant y none) hrow
    dsimp only at hbefore ⊢
    generalize (if m.kind.isIncoming then
      s₁.beforeMessage m.activation none m.participant y none else s₁) = s₂ at hbefore ⊢
    have hnumber := hbefore.number m.label
    generalize s₂.number m.label = r at hnumber ⊢
    obtain ⟨s₃, label⟩ := r
    dsimp only at hnumber ⊢
    generalize hs₄ : s₃.line _ _ _ _ _ _ = s₄
    have harrow : s₄.Sound parent aside := hs₄ ▸ hnumber.line _ _ _ _ _ _
    have hend := ite (b := !m.kind.isIncoming && closes m.activation)
      (harrow.deactivate m.participant y)
      (ite (b := m.activation == some "!!") (harrow.destroy m.participant y) harrow)
    exact hend.of_eq rfl rfl rfl

/-- A message may get another place. -/
lemma moveMessage (h : s.Sound parent aside) (place : Nat) (f : Cell → Option Geometry) :
    ({ s with layers := { s.layers with
        messages := s.layers.messages.modify place fun c => { c with geometry := f c } } } :
      Sheet).Sound parent aside where
  parent_eq := h.parent_eq
  ids := by
    have hid : ∀ c : Cell, Cell.id { c with geometry := f c } = c.id := fun _ => rfl
    simpa [Layers.all, map_modify hid] using h.ids
  free := by
    have hties : ∀ c : Cell, Cell.ties { c with geometry := f c } = c.ties := fun _ => rfl
    intro c hc
    have hmem : c.ties ∈ (s.layers.all ++ aside).map Cell.ties := by
      simpa only [Layers.all, List.map_append, map_modify hties] using
        List.mem_map_of_mem (f := Cell.ties) hc
    obtain ⟨c', hc', heq⟩ := List.mem_map.1 hmem
    exact heq ▸ h.free c' hc'

lemma snap (h : s.Sound parent aside) (code : String) : (s.snap code).Sound parent aside := by
  unfold Sheet.snap
  cases s.lastCell with
  | none => exact h
  | some place => exact (h.moveMessage place _).of_eq rfl rfl rfl

lemma life (h : s.Sound parent aside) (e : LifeEvent) : (s.life e).Sound parent aside := by
  unfold Sheet.life
  split
  · exact h
  · cases e.kind with
    | activate =>
      dsimp only
      split
      · split
        · exact (h.activate _ _ _ _).snap _
        · exact h.activate _ _ _ _
      · exact h.activate _ _ _ _
    | deactivate =>
      dsimp only
      split
      · exact h.deactivate _ _
      · exact h.deactivate _ _
    | destroy => exact (h.destroy _ _).reach _
    | create => exact h.expect _
    | other => exact h

lemma note (h : s.Sound parent aside) (n : Note) : (s.note n).Sound parent aside :=
  ((h.shape _ _ _ _ _ _ _).advance _).forget

lemma divider (h : s.Sound parent aside) (label : String) :
    (s.divider label).Sound parent aside :=
  (((h.advance _).shape _ _ _ _ _ _ _).advance _).forget

lemma delay (h : s.Sound parent aside) (label : String) : (s.delay label).Sound parent aside :=
  ((ite h (h.shape _ _ _ _ _ _ _)).advance _).forget

lemma reference (h : s.Sound parent aside) (r : Reference) :
    (s.reference r).Sound parent aside :=
  ((h.shape _ _ _ _ _ _ _).advance _).forget

lemma plain (h : s.Sound parent aside) (e : Element) : (s.plain e).Sound parent aside := by
  cases e with
  | message m => exact h.message m
  | border m => exact h.border m
  | life e => exact h.life e
  | fragment f => exact h
  | note n => exact h.note n
  | divider label => exact h.divider label
  | delay label => exact h.delay label
  | space size => exact (h.advance _).forget
  | reference r => exact h.reference r
  | autoNumber a => exact h.renumber a

/-- The frames so far are put aside. -/
lemma takeFrames (h : s.Sound parent aside) :
    ({ s with layers := { s.layers with frames := [] } } : Sheet).Sound parent
      (s.layers.frames ++ aside) := by
  refine h.of_perm rfl rfl ?_
  classical
  refine List.perm_iff_count.2 fun c => ?_
  simp only [Layers.all, List.count_append, List.count_nil]
  omega

/-- Frames that were put aside are put around the frames that were drawn since. -/
lemma putFrames {frames : List Cell} (h : s.Sound parent (frames ++ aside)) (place : Nat) :
    ({ s with layers := { s.layers with
        frames := frames.take place ++ s.layers.frames ++ frames.drop place } } : Sheet).Sound
      parent aside := by
  refine h.of_perm rfl rfl ?_
  classical
  refine List.perm_iff_count.2 fun c => ?_
  have hsplit := congrArg (List.count c) (List.take_append_drop place frames)
  simp only [Layers.all, List.count_append] at hsplit ⊢
  omega

lemma frame (h : s.Sound parent aside) (f : Fragment Element) (place : Nat) (top bottom : Number)
    (sides : Number × Number) (lines : List (Number × String)) :
    (s.frame f place top bottom sides lines).Sound parent aside := by
  unfold Sheet.frame
  obtain ⟨left, right⟩ := sides
  dsimp only
  generalize hinner : List.foldl _ _ lines = inner
  -- the frame, its label and its lines are drawn while the frames inside are put aside
  have hsound : inner.Sound parent (s.layers.frames ++ aside) := by
    rw [← hinner]
    refine foldl ((h.takeFrames.shape _ _ _ _ _ _ _).shape _ _ _ _ _ _ _) ?_ lines
    intro t line ht
    exact ht.line _ _ _ _ _ _
  exact hsound.putFrames place

end Sound

mutual

lemma Sound.draw {parent : String} {aside : List Cell} (depth : Nat) {s : Sheet}
    (h : s.Sound parent aside) (e : Element) : (draw depth s e).Sound parent aside := by
  cases e with
  | fragment f =>
    obtain ⟨kind, label, color, sections⟩ := f
    unfold Sheet.draw
    have hsections := Sound.drawSections (depth + 1) (h.advance 30).forget true sections
    exact ((hsections.advance 10).advance 10).frame _ _ _ _ _ _
  | _ =>
    unfold Sheet.draw
    exact h.plain _

lemma Sound.drawSections {parent : String} {aside : List Cell} (depth : Nat) {s : Sheet}
    (h : s.Sound parent aside) (isFirst : Bool) :
    (sections : List (Section Element)) →
      (drawSections depth s isFirst sections).1.Sound parent aside
  | [] => h
  | ⟨condition, elements⟩ :: rest => by
    unfold Sheet.drawSections
    have hline := Sound.ite (b := isFirst) h (h.advance 20)
    exact Sound.drawSections depth (Sound.drawAll depth hline elements) false rest

lemma Sound.drawAll {parent : String} {aside : List Cell} (depth : Nat) {s : Sheet}
    (h : s.Sound parent aside) :
    (elements : List Element) → (drawAll depth s elements).Sound parent aside
  | [] => h
  | e :: rest => Sound.drawAll depth (Sound.draw depth h e) rest

end

namespace Sound

variable {parent : String} {aside : List Cell} {s : Sheet}

lemma finishColumn (h : s.Sound parent aside) (hideFootbox : Bool) (endY : Number) (c : Column) :
    (Sheet.finishColumn hideFootbox endY s c).1.Sound parent aside := by
  unfold Sheet.finishColumn
  have hlifeline := (h.shape .shapes (headerLabel c.participant) (headerStyle c.participant) c.left
    c.headerY c.width c.height).line .lifelines "" lifelineStyle ⟨c.center, c.lifelineTop⟩
    ⟨c.center, c.endY.getD endY⟩ []
  dsimp only
  split
  · exact hlifeline
  · exact hlifeline.shape _ _ _ _ _ _ _

lemma box (h : s.Sound parent aside) (footer : Number) (b : Box) :
    (Sheet.box footer s b).Sound parent aside := by
  unfold Sheet.box
  split
  · exact h
  · exact h.shape _ _ _ _ _ _ _

lemma finish (h : s.Sound parent aside) (d : Diagram) : (s.finish d).Sound parent aside := by
  have hclosed := h.foldl
    (fun _ c hs => hs.deactivateAll (Column.participant c).code (s.cursor + 10)) s.columns
  unfold Sheet.finish
  dsimp only
  generalize List.foldl _ s s.columns = closed at hclosed ⊢
  -- the columns are finished with the lowest foot so far beside the sheet
  have hcolumns : ∀ cs sy, sy.1.Sound parent aside → (List.foldl (fun (sy : Sheet × Number) c =>
      ((Sheet.finishColumn d.hideFootbox (s.cursor + 10) sy.1 c).1,
        Number.max sy.2 (Sheet.finishColumn d.hideFootbox (s.cursor + 10) sy.1 c).2)) sy cs).1.Sound
          parent aside := by
    intro cs sy hsy
    exact List.foldlRecOn (motive := fun sy : Sheet × Number => sy.1.Sound parent aside) cs _ hsy
      fun sy hsy c _ => hsy.finishColumn _ _ c
  exact (hcolumns closed.columns (closed, s.cursor + 10) hclosed).foldl
    (fun _ b hs => hs.box _ b) d.boxes

/-- The sheet of a diagram starts without cells, or with its title. -/
lemma start (d : Diagram) (parent : String) : (Sheet.start d parent).Sound parent [] := by
  have hempty : ∀ s : Sheet, s.parent = parent → s.count = 0 → s.layers = {} →
      s.Sound parent [] := by
    intro s hparent hcount hlayers
    refine ⟨hparent, ?_, ?_⟩
    · rw [hcount, hlayers]
      exact List.Perm.nil
    · rw [hlayers]
      intro c hc
      cases hc
  unfold Sheet.start
  dsimp only
  cases titleOf d with
  | none => exact hempty _ rfl rfl rfl
  | some t => exact (hempty _ rfl rfl rfl).shape _ _ _ _ _ _ _

lemma connected (h : s.Sound parent []) : Cell.Connected parent s.layers.all := by
  have hids := h.ids
  have hfree := h.free
  rw [List.append_nil] at hids hfree
  have hlength : s.count = s.layers.all.length := by
    simpa [Document.numberedIds] using hids.length_eq.symm
  refine Cell.connected_of_perm (hlength ▸ hids) ?_
  intro c hc
  have hties := hfree c hc
  simp only [Cell.ties, Prod.mk.injEq] at hties
  exact ⟨.inl hties.1, .inl hties.2⟩

end Sound
end Sheet

/-- All cells of a sequence diagram lie in the cell around the drawing, numbered in the order in
which they are drawn. -/
theorem Diagram.connected_draw {d : Diagram} {parent : String} {cells : List Cell}
    (h : d.draw parent = .ok cells) : Cell.Connected parent cells := by
  obtain ⟨-, rfl⟩ := Fault.check_eq_ok_iff.1 h
  exact (((Sheet.Sound.start d parent).drawAll 0 d.elements).finish d).connected

end Sequence
end UmlDraw
