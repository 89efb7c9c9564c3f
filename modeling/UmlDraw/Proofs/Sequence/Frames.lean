/-
# The frames of fragments

A frame is drawn when the elements of its fragment are drawn already, but it is put behind the
frames of the fragments inside.  So the layer of frames lists the fragments of the tree of elements
from the outside to the inside, in the order of the document: all else that is drawn leaves the
layer alone, and what a fragment puts in front of the frames inside it are its own cells.

The main statements are

* the lemmas `backdrop_…`: what leaves the layer of frames alone;
* `Sequence.Sheet.framed_draw` and the two lemmas beside it: the frames that elements add, by
  induction on the element;
* `Sequence.Diagram.frames_draw`: the layer of frames of a diagram.
-/
import Mathlib.Tactic.Lemma
import UmlDraw.Proofs.Data.Outcome
import UmlDraw.Sequence.Drawing

namespace UmlDraw
namespace Sequence

mutual

/-- The fragments of an element: a fragment comes before those in its sections. -/
def fragmentsOf : Element → List (Fragment Element)
  | .fragment ⟨kind, label, color, sections⟩ =>
    ⟨kind, label, color, sections⟩ :: fragmentsOfSections sections
  | _ => []

/-- The fragments of the elements of sections, in order. -/
def fragmentsOfSections : List (Section Element) → List (Fragment Element)
  | [] => []
  | ⟨_, elements⟩ :: rest => fragmentsOfAll elements ++ fragmentsOfSections rest

/-- The fragments of elements, in order. -/
def fragmentsOfAll : List Element → List (Fragment Element)
  | [] => []
  | e :: rest => fragmentsOf e ++ fragmentsOfAll rest

end

/-! ### Outside in -/

/-- Behind each fragment of the list stand those inside it, before all others. -/
def OutsideIn (fs : List (Fragment Element)) : Prop :=
  ∀ before f after, fs = before ++ f :: after → fragmentsOfSections f.sections <+: after

namespace OutsideIn

variable {fs fs' : List (Fragment Element)}

lemma nil : OutsideIn [] := by
  intro before f after h
  cases before <;> cases h

lemma append (h : OutsideIn fs) (h' : OutsideIn fs') : OutsideIn (fs ++ fs') := by
  intro before f after heq
  rcases List.append_eq_append_iff.1 heq with ⟨gap, rfl, hfs'⟩ | ⟨gap, hfs, hafter⟩
  · exact h' gap f after hfs'
  · cases gap with
    | nil => exact h' [] f after hafter.symm
    | cons g gap =>
      -- the fragment stands in the first list, and what follows it there comes first
      obtain ⟨rfl, rfl⟩ := List.cons.inj hafter
      exact (h before _ gap hfs).trans (List.prefix_append gap fs')

lemma cons (f : Fragment Element) (h : OutsideIn (fragmentsOfSections f.sections)) :
    OutsideIn (f :: fragmentsOfSections f.sections) := by
  intro before g after heq
  cases before with
  | nil =>
    obtain ⟨rfl, rfl⟩ := List.cons.inj heq
    exact List.prefix_refl _
  | cons _ before => exact h before g after (List.cons.inj heq).2

end OutsideIn

mutual

lemma outsideIn_fragmentsOf (e : Element) : OutsideIn (fragmentsOf e) := by
  cases e with
  | fragment f =>
    obtain ⟨kind, label, color, sections⟩ := f
    exact OutsideIn.cons ⟨kind, label, color, sections⟩ (outsideIn_fragmentsOfSections sections)
  | _ => exact OutsideIn.nil

lemma outsideIn_fragmentsOfSections :
    (sections : List (Section Element)) → OutsideIn (fragmentsOfSections sections)
  | [] => OutsideIn.nil
  | ⟨_, elements⟩ :: rest =>
    (outsideIn_fragmentsOfAll elements).append (outsideIn_fragmentsOfSections rest)

lemma outsideIn_fragmentsOfAll : (es : List Element) → OutsideIn (fragmentsOfAll es)
  | [] => OutsideIn.nil
  | e :: rest => (outsideIn_fragmentsOf e).append (outsideIn_fragmentsOfAll rest)

end

/-! ### Frames -/

/-- The text in the tab of a frame. -/
def Fragment.tab (f : Fragment Element) : String :=
  if f.kind == "group" && !f.label.isEmpty then f.label else f.kind

/-- The text beside the tab of a frame: the condition of the first section. -/
def Fragment.caption (f : Fragment Element) : String :=
  if f.kind == "group" then ""
  else Sheet.bracketed ((f.sections.head?.map Section.condition).getD f.label)

/-- The frame of a fragment with its place on a sheet. -/
structure Frame where
  /-- The fragment. -/
  fragment : Fragment Element
  /-- The number of cells that were drawn before. -/
  count : Nat
  /-- The left side. -/
  left : Number
  /-- The right side. -/
  right : Number
  /-- The upper side. -/
  top : Number
  /-- The lower side. -/
  bottom : Number
  /-- The heights of the lines between the sections, each with the condition below it. -/
  lines : List (Number × String)
  /-- There is one line for each section behind the first one. -/
  conditions : lines.map Prod.snd = (fragment.sections.drop 1).map Section.condition

namespace Frame

/-- The cell of a line between two sections. -/
def separator (parent : String) (left right : Number) (number : Nat) (line : Number × String) :
    Cell :=
  Cell.freeConnector (Document.numberedId "puml" number) (Sheet.bracketed line.2)
    sectionStyle.render parent ⟨left, line.1⟩ ⟨right, line.1⟩ []

/-- The cells of a frame: the frame itself, its tab, and the lines between its sections. -/
def cells (parent : String) (f : Frame) : List Cell :=
  Cell.shape (Document.numberedId "puml" (f.count + 1)) f.fragment.caption
      (frameStyle f.fragment.color).render parent f.left f.top (f.right - f.left)
      (f.bottom - f.top) ::
    Cell.shape (Document.numberedId "puml" (f.count + 2)) f.fragment.tab tabStyle.render parent
      f.left f.top (.int (max 60 (textWidth f.fragment.tab))) 20 ::
    f.lines.mapIdx fun i => separator parent f.left f.right (f.count + 3 + i)

end Frame

namespace Sheet

variable {s s' : Sheet}

/-- The cell around the drawing and the layer of frames. -/
def backdrop (s : Sheet) : String × List Cell :=
  (s.parent, s.layers.frames)

/-! ### What leaves the layer of frames alone -/

lemma backdrop_put (s : Sheet) {layer : Layer} (h : layer ≠ .frames) (c : Cell) :
    (s.put layer c).backdrop = s.backdrop := by
  cases layer with
  | frames => exact absurd rfl h
  | _ => rfl

lemma backdrop_foldl {α : Type} {f : Sheet → α → Sheet}
    (hf : ∀ s a, (f s a).backdrop = s.backdrop) (s : Sheet) (as : List α) :
    (as.foldl f s).backdrop = s.backdrop :=
  List.foldlRecOn (motive := fun t : Sheet => t.backdrop = s.backdrop) as f rfl fun t ht a _ =>
    (hf t a).trans ht

lemma backdrop_deactivate (s : Sheet) (code : String) (y : Number) :
    (s.deactivate code y).backdrop = s.backdrop := by
  unfold deactivate
  split
  · rfl
  · rfl

lemma backdrop_deactivateAll (s : Sheet) (code : String) (y : Number) :
    (s.deactivateAll code y).backdrop = s.backdrop :=
  backdrop_foldl (fun t _ => t.backdrop_deactivate code y) s _

lemma backdrop_destroy (s : Sheet) (code : String) (y : Number) :
    (s.destroy code y).backdrop = s.backdrop :=
  s.backdrop_deactivateAll code y

lemma backdrop_beforeMessage (s : Sheet) (shortcut source : Option String) (target : String)
    (y : Number) (color : Option String) :
    (s.beforeMessage shortcut source target y color).backdrop = s.backdrop := by
  unfold beforeMessage
  split
  · rfl
  · split
    · rfl
    · rfl

lemma backdrop_afterMessage (s : Sheet) (shortcut : Option String) (source target : String)
    (y : Number) : (s.afterMessage shortcut source target y).backdrop = s.backdrop := by
  unfold afterMessage
  split
  · exact s.backdrop_deactivate source y
  · split
    · exact s.backdrop_destroy target y
    · rfl

lemma backdrop_row (s : Sheet) (isParallel : Bool) (label : String) :
    (s.row isParallel label).1.backdrop = s.backdrop := by
  unfold row
  split
  · rfl
  · rfl

lemma backdrop_placeCreated (s : Sheet) (code : String) (y : Number) :
    (s.placeCreated code y).1.backdrop = s.backdrop := by
  unfold placeCreated
  split
  · rfl
  · rfl

lemma backdrop_number (s : Sheet) (label : String) :
    (s.number label).1.backdrop = s.backdrop := by
  unfold number
  dsimp only
  split
  · rfl
  · rfl

lemma backdrop_renumber (s : Sheet) (a : AutoNumber) : (s.renumber a).backdrop = s.backdrop := by
  unfold renumber
  dsimp only
  split
  · rfl
  · rfl

lemma backdrop_crossMessage (s : Sheet) (m : Message) (source target label : String)
    (y : Number) : (s.crossMessage m source target label y).backdrop = s.backdrop :=
  s.backdrop_placeCreated target y

lemma backdrop_furtherTarget (m : Message) (source : String) (y : Number) (s : Sheet)
    (extra : String) : (furtherTarget m source y s extra).backdrop = s.backdrop := by
  unfold furtherTarget
  split
  · rfl
  · rfl

lemma backdrop_messageBetween (s : Sheet) (m : Message) (source target : String) :
    (s.messageBetween m source target).backdrop = s.backdrop := by
  unfold messageBetween
  have hrow := s.backdrop_row m.isParallel m.label
  generalize s.row m.isParallel m.label = r at hrow ⊢
  obtain ⟨s₁, y⟩ := r
  have hbefore := s₁.backdrop_beforeMessage m.activation (some source) target y m.activationColor
  dsimp only at hrow ⊢
  generalize s₁.beforeMessage m.activation (some source) target y m.activationColor = s₂
    at hbefore ⊢
  have hnumber := s₂.backdrop_number m.label
  generalize s₂.number m.label = r at hnumber ⊢
  obtain ⟨s₃, label⟩ := r
  dsimp only at hnumber ⊢
  -- the arrow and those to further targets are drawn in layers of their own
  generalize hs₄ : List.foldl (furtherTarget m source y) _ m.multicast = s₄
  have harrow : s₄.backdrop = s₃.backdrop := by
    rw [← hs₄, backdrop_foldl (backdrop_furtherTarget m source y)]
    split
    · rfl
    · exact s₃.backdrop_crossMessage m source target _ y
  have hend (s₅ : Sheet) (hnote : s₅.backdrop = s₄.backdrop) :
      (if m.isReturn then (s₅.afterMessage m.activation source target y).deactivate source y
        else s₅.afterMessage m.activation source target y).backdrop = s.backdrop := by
    have hdrawn : (s₅.afterMessage m.activation source target y).backdrop = s.backdrop := by
      rw [backdrop_afterMessage, hnote, harrow, hnumber, hbefore, hrow]
    split
    · exact (backdrop_deactivate _ source y).trans hdrawn
    · exact hdrawn
  cases m.note with
  | none => exact hend s₄ rfl
  | some note => exact hend (s₄.arrowNote note source target y) rfl

lemma backdrop_message (s : Sheet) (m : Message) : (s.message m).backdrop = s.backdrop := by
  unfold message
  split
  · rfl
  · split
    · exact s.backdrop_messageBetween m _ _
    · rfl

lemma backdrop_border (s : Sheet) (m : BorderMessage) : (s.border m).backdrop = s.backdrop := by
  unfold border
  split
  · rfl
  · have hrow := s.backdrop_row m.isParallel m.label
    generalize s.row m.isParallel m.label = r at hrow ⊢
    obtain ⟨s₁, y⟩ := r
    dsimp only at hrow ⊢
    generalize hs₂ : (if m.kind.isIncoming then
      s₁.beforeMessage m.activation none m.participant y none else s₁) = s₂
    have hbefore : s₂.backdrop = s₁.backdrop := by
      rw [← hs₂]
      split
      · exact s₁.backdrop_beforeMessage _ _ _ _ _
      · rfl
    have hnumber := s₂.backdrop_number m.label
    generalize s₂.number m.label = r at hnumber ⊢
    obtain ⟨s₃, label⟩ := r
    dsimp only at hnumber ⊢
    generalize hs₄ : Sheet.line s₃ _ _ _ _ _ _ = s₄
    have hline : s₄.backdrop = s₃.backdrop := by
      rw [← hs₄]
      rfl
    have hbar : (if !m.kind.isIncoming && closes m.activation then s₄.deactivate m.participant y
        else if m.activation == some "!!" then s₄.destroy m.participant y else s₄).backdrop =
          s₄.backdrop := by
      split
      · exact s₄.backdrop_deactivate _ y
      · split
        · exact s₄.backdrop_destroy _ y
        · rfl
    calc _ = s₄.backdrop := hbar
      _ = s₂.backdrop := hline.trans hnumber
      _ = s.backdrop := hbefore.trans hrow

lemma backdrop_snap (s : Sheet) (code : String) : (s.snap code).backdrop = s.backdrop := by
  unfold snap
  split
  · rfl
  · rfl

lemma backdrop_life (s : Sheet) (e : LifeEvent) : (s.life e).backdrop = s.backdrop := by
  unfold life
  split
  · rfl
  · cases e.kind with
    | activate =>
      dsimp only
      split
      · split
        · exact backdrop_snap _ _
        · rfl
      · rfl
    | deactivate =>
      dsimp only
      split
      · exact s.backdrop_deactivate _ _
      · exact s.backdrop_deactivate _ _
    | destroy => exact s.backdrop_destroy _ _
    | create => rfl
    | other => rfl

lemma backdrop_delay (s : Sheet) (label : String) : (s.delay label).backdrop = s.backdrop := by
  show (if label.isEmpty then s else _).backdrop = s.backdrop
  split
  · rfl
  · rfl

lemma backdrop_plain (s : Sheet) (e : Element) : (s.plain e).backdrop = s.backdrop := by
  cases e with
  | message m => exact s.backdrop_message m
  | border m => exact s.backdrop_border m
  | life e => exact s.backdrop_life e
  | delay label => exact s.backdrop_delay label
  | autoNumber a => exact s.backdrop_renumber a
  | _ => rfl

lemma backdrop_finishColumn (hideFootbox : Bool) (endY : Number) (s : Sheet) (c : Column) :
    (finishColumn hideFootbox endY s c).1.backdrop = s.backdrop := by
  unfold finishColumn
  dsimp only
  split
  · rfl
  · rfl

lemma backdrop_box (footer : Number) (s : Sheet) (b : Box) :
    (box footer s b).backdrop = s.backdrop := by
  unfold box
  split
  · rfl
  · rfl

lemma backdrop_finish (s : Sheet) (d : Diagram) : (s.finish d).backdrop = s.backdrop := by
  unfold finish
  dsimp only
  have hswept := backdrop_foldl (fun t (c : Column) =>
    t.backdrop_deactivateAll c.participant.code (s.cursor + 10)) s s.columns
  generalize List.foldl _ s s.columns = swept at hswept ⊢
  refine (backdrop_foldl (fun t b => backdrop_box _ t b) _ d.boxes).trans (Eq.trans ?_ hswept)
  -- the columns are finished with the lowest foot so far beside the sheet
  refine List.foldlRecOn
    (motive := fun sy : Sheet × Number => sy.1.backdrop = swept.backdrop) _ _ rfl ?_
  intro sy hsy c _
  exact (backdrop_finishColumn _ _ sy.1 c).trans hsy

lemma backdrop_start (d : Diagram) (parent : String) : (start d parent).backdrop = (parent, []) := by
  unfold start
  dsimp only
  split
  · rfl
  · rfl

/-! ### What a frame adds -/

lemma frames_separators (left right : Number) (lines : List (Number × String)) (s : Sheet) :
    (lines.foldl (fun t (line : Number × String) =>
        t.line .frames (bracketed line.2) sectionStyle ⟨left, line.1⟩ ⟨right, line.1⟩ []) s).backdrop =
      (s.parent, s.layers.frames ++
        lines.mapIdx fun i => Frame.separator s.parent left right (s.count + 1 + i)) := by
  induction lines generalizing s with
  | nil => simp [backdrop]
  | cons line rest ih =>
    have hnumbers : (fun i => Frame.separator s.parent left right (s.count + 1 + 1 + i)) =
        fun i => Frame.separator s.parent left right (s.count + 1 + (i + 1)) := by
      funext i
      rw [Nat.add_right_comm (s.count + 1) 1 i, Nat.add_assoc (s.count + 1) i 1]
    rw [List.foldl_cons, ih, List.mapIdx_cons]
    change (s.parent, (s.layers.frames ++ [Frame.separator s.parent left right (s.count + 1) line]) ++
      rest.mapIdx fun i => Frame.separator s.parent left right (s.count + 1 + 1 + i)) = _
    rw [hnumbers, List.append_assoc]
    rfl

/-- A drawing step adds frames to their layer, in front of all others. -/
def Framed (s : Sheet) (frames : List Frame) (s' : Sheet) : Prop :=
  s'.backdrop = (s.parent, s.layers.frames ++ frames.flatMap (Frame.cells s.parent))

namespace Framed

variable {fs fs' : List Frame} {s'' : Sheet}

lemma of_backdrop (h : s'.backdrop = s.backdrop) : s.Framed [] s' := by
  unfold Framed
  rw [h, List.flatMap_nil, List.append_nil]
  rfl

lemma trans (h : s.Framed fs s') (h' : s'.Framed fs' s'') : s.Framed (fs ++ fs') s'' := by
  obtain ⟨hparent, hframes⟩ := Prod.mk.inj h
  unfold Framed
  rw [h', hparent, hframes, List.flatMap_append, List.append_assoc]

end Framed

/-- The cells of a frame are put behind the frames drawn since its place was taken. -/
lemma framed_frame {fs : List Frame} (h : s.Framed fs s') (f : Frame) (hcount : f.count = s'.count) :
    s.Framed (f :: fs) (s'.frame f.fragment s.layers.frames.length f.top f.bottom
      (f.left, f.right) f.lines) := by
  obtain ⟨hparent, hframes⟩ := Prod.mk.inj h
  unfold frame
  dsimp only
  generalize hinner : Sheet.shape (Sheet.shape _ _ _ _ _ _ _ _) _ _ _ _ _ _ _ = inner
  have hlines := frames_separators f.left f.right f.lines inner
  generalize List.foldl _ inner f.lines = drawn at hlines ⊢
  obtain ⟨hdrawn, hown⟩ := Prod.mk.inj hlines
  -- on a sheet without frames the frame, its tab and its lines are drawn
  have hcells : drawn.layers.frames = f.cells s.parent := by
    rw [hown, ← hinner, ← hparent, Frame.cells, hcount]
    rfl
  have htop : drawn.parent = s.parent := by
    rw [hdrawn, ← hinner]
    exact hparent
  unfold Framed backdrop
  dsimp only
  rw [htop, hcells, hframes, List.take_left, List.drop_left, List.flatMap_cons, List.append_assoc]

mutual

/-- An element adds the frames of its fragments, from the outside to the inside. -/
lemma framed_draw (depth : Nat) (s : Sheet) (e : Element) :
    ∃ fs : List Frame, fs.map Frame.fragment = fragmentsOf e ∧ s.Framed fs (draw depth s e) := by
  cases e with
  | fragment f =>
    obtain ⟨kind, label, color, sections⟩ := f
    obtain ⟨fs, hfs, hdrawn, hlines⟩ :=
      framed_drawSections (depth + 1) ((s.advance 30).forget) true sections
    unfold draw
    dsimp only
    generalize drawSections (depth + 1) ((s.advance 30).forget) true sections = r at hdrawn hlines ⊢
    obtain ⟨s₁, lines⟩ := r
    dsimp only at hdrawn hlines ⊢
    generalize hsides : Sheet.frameSides _ depth label _ = sides
    obtain ⟨left, right⟩ := sides
    have hbelow : s.Framed fs ((s₁.advance 10).advance 10) := hdrawn
    -- its place in the layer is taken before the sections are drawn, so it comes in front of theirs
    refine ⟨⟨⟨kind, label, color, sections⟩, s₁.count, left, right, s.cursor,
      (s₁.advance 10).cursor, lines, hlines⟩ :: fs, ?_, framed_frame hbelow _ rfl⟩
    rw [List.map_cons, hfs]
    rfl
  | _ =>
    unfold draw
    exact ⟨[], rfl, .of_backdrop (s.backdrop_plain _)⟩

lemma framed_drawSections (depth : Nat) (s : Sheet) (isFirst : Bool) :
    (sections : List (Section Element)) →
      ∃ fs : List Frame, fs.map Frame.fragment = fragmentsOfSections sections ∧
        s.Framed fs (drawSections depth s isFirst sections).1 ∧
        (drawSections depth s isFirst sections).2.map Prod.snd =
          (sections.drop (if isFirst then 1 else 0)).map Section.condition
  | [] => by
    refine ⟨[], rfl, .of_backdrop rfl, ?_⟩
    rw [List.drop_nil]
    rfl
  | ⟨condition, elements⟩ :: rest => by
    have hline : s.Framed [] (if isFirst then s else s.advance 20) := by
      refine .of_backdrop ?_
      split
      · rfl
      · rfl
    obtain ⟨fs, hfs, hdrawn⟩ :=
      framed_drawAll depth (if isFirst then s else s.advance 20) elements
    obtain ⟨fs', hfs', hdrawn', hlines⟩ := framed_drawSections depth
      (drawAll depth (if isFirst then s else s.advance 20) elements) false rest
    refine ⟨fs ++ fs', ?_, (hline.trans hdrawn).trans hdrawn', ?_⟩
    · rw [List.map_append, hfs, hfs', fragmentsOfSections]
    · unfold drawSections
      dsimp only
      rw [List.map_append, hlines]
      cases isFirst with
      | true => rfl
      | false => rfl

lemma framed_drawAll (depth : Nat) (s : Sheet) :
    (es : List Element) →
      ∃ fs : List Frame, fs.map Frame.fragment = fragmentsOfAll es ∧
        s.Framed fs (drawAll depth s es)
  | [] => ⟨[], rfl, .of_backdrop rfl⟩
  | e :: rest => by
    obtain ⟨fs, hfs, hdrawn⟩ := framed_draw depth s e
    obtain ⟨fs', hfs', hdrawn'⟩ := framed_drawAll depth (draw depth s e) rest
    refine ⟨fs ++ fs', ?_, hdrawn.trans hdrawn'⟩
    rw [List.map_append, hfs, hfs', fragmentsOfAll]

end

end Sheet

/-- The layer of frames lists the fragments of a diagram, each once, with its frame, its tab and the
lines between its sections.  A fragment is listed right before those inside it, so its frame lies
behind their frames. -/
theorem Diagram.frames_draw (d : Diagram) (parent : String) :
    (∀ cells, d.draw parent = .ok cells → cells = (d.sheet parent).layers.all) ∧
      ∃ frames : List Frame,
        (d.sheet parent).layers.frames = frames.flatMap (Frame.cells parent) ∧
        frames.map Frame.fragment = fragmentsOfAll d.elements ∧
        ∀ before f after, frames = before ++ f :: after →
          fragmentsOfSections f.fragment.sections <+: after.map Frame.fragment := by
  refine ⟨fun cells hcells => (Fault.check_eq_ok_iff.1 hcells).2.symm, ?_⟩
  obtain ⟨frames, hfragments, hdrawn⟩ :=
    Sheet.framed_drawAll 0 (Sheet.start d parent) d.elements
  obtain ⟨hparent, hempty⟩ := Prod.mk.inj (Sheet.backdrop_start d parent)
  have hsheet := (Sheet.backdrop_finish _ d).trans hdrawn
  rw [hparent, hempty, List.nil_append] at hsheet
  refine ⟨frames, (Prod.mk.inj hsheet).2, hfragments, ?_⟩
  intro before f after hsplit
  refine outsideIn_fragmentsOfAll d.elements (before.map Frame.fragment) f.fragment
    (after.map Frame.fragment) ?_
  rw [← hfragments, hsplit, List.map_append, List.map_cons]

end Sequence
end UmlDraw
