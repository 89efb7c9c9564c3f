/-
# Sequence diagrams in another cell

No decision on a sheet looks at the cell around the drawing or at the cells drawn so far.  So a sheet
that is moved into another cell goes through the same steps, and is the moved sheet behind each of
them.

The main statements are

* `Sequence.Sheet.draw_movedTo` and the two lemmas beside it: elements on a moved sheet, by induction
  on the element;
* `Sequence.Diagram.sheet_eq_movedTo`: the sheet of a diagram in another cell;
* `Sequence.Diagram.draw_reparent`: its cells there.
-/
import UmlDraw.Proofs.Drawing.Sequence
import UmlDraw.Proofs.Style.Sketch

namespace UmlDraw
namespace Sequence

/-- The layers with changed cells. -/
def Layers.map (f : Cell → Cell) (l : Layers) : Layers where
  boxes := l.boxes.map f
  frames := l.frames.map f
  lifelines := l.lifelines.map f
  bars := l.bars.map f
  shapes := l.shapes.map f
  messages := l.messages.map f

lemma Layers.all_map (f : Cell → Cell) (l : Layers) : (l.map f).all = l.all.map f := by
  simp [all, map]

lemma Layers.add_map (f : Cell → Cell) (l : Layers) (layer : Layer) (c : Cell) :
    (l.map f).add layer (f c) = (l.add layer c).map f := by
  cases layer
  all_goals simp [add, map]

/-- The cell, in another parent. -/
def inParent (parent : String) (c : Cell) : Cell :=
  { c with parent := parent }

/-- A change at one place comes before or behind a change everywhere, if the two commute. -/
lemma modify_map (f g : Cell → Cell) (h : ∀ c, g (f c) = f (g c)) (cells : List Cell) (n : Nat) :
    (cells.map f).modify n g = (cells.modify n g).map f := by
  induction cells generalizing n with
  | nil => simp
  | cons c rest ih =>
    cases n with
    | zero => simp [h]
    | succ n => simp [ih]

namespace Sheet

/-- The sheet with all its cells, in another cell. -/
def movedTo (q : String) (s : Sheet) : Sheet :=
  { s with parent := q, layers := s.layers.map (inParent q) }

variable {q : String} {s : Sheet}

lemma put_movedTo (layer : Layer) (c : Cell) :
    (s.movedTo q).put layer (inParent q c) = (s.put layer c).movedTo q := by
  have hlayers := Layers.add_map (inParent q) s.layers layer c
  simp only [put, movedTo, meet] at hlayers ⊢
  rw [hlayers]
  rfl

lemma shape_movedTo (s : Sheet) (layer : Layer) (value : String) (style : Style)
    (x y width height : Number) :
    (s.movedTo q).shape layer value style x y width height =
      (s.shape layer value style x y width height).movedTo q :=
  put_movedTo layer (Cell.shape s.nextId value style.render s.parent x y width height)

lemma line_movedTo (s : Sheet) (layer : Layer) (value : String) (style : Style)
    (start stop : Point) (points : List Point) :
    (s.movedTo q).line layer value style start stop points =
      (s.line layer value style start stop points).movedTo q :=
  put_movedTo layer (Cell.freeConnector s.nextId value style.render s.parent start stop points)

lemma deactivate_movedTo (s : Sheet) (code : String) (y : Number) :
    (s.movedTo q).deactivate code y = (s.deactivate code y).movedTo q := by
  have hbars : (s.movedTo q).barsOf code = s.barsOf code := rfl
  unfold deactivate
  rw [hbars]
  cases s.barsOf code with
  | nil => rfl
  | cons bar rest => exact shape_movedTo (s.setBars code rest) _ _ _ _ _ _ _

lemma deactivateAll_movedTo (s : Sheet) (code : String) (y : Number) :
    (s.movedTo q).deactivateAll code y = (s.deactivateAll code y).movedTo q :=
  List.foldl_hom (movedTo q) fun s _ => deactivate_movedTo s code y

lemma destroy_movedTo (s : Sheet) (code : String) (y : Number) :
    (s.movedTo q).destroy code y = (s.destroy code y).movedTo q := by
  unfold destroy
  rw [deactivateAll_movedTo]
  exact shape_movedTo ((s.deactivateAll code y).changeColumn code fun c =>
    { c with endY := some y }) _ _ _ _ _ _ _

lemma beforeMessage_movedTo (s : Sheet) (shortcut source : Option String) (target : String)
    (y : Number) (color : Option String) :
    (s.movedTo q).beforeMessage shortcut source target y color =
      (s.beforeMessage shortcut source target y color).movedTo q := by
  unfold beforeMessage
  split
  · rfl
  · split
    · rfl
    · rfl

lemma afterMessage_movedTo (s : Sheet) (shortcut : Option String) (source target : String)
    (y : Number) :
    (s.movedTo q).afterMessage shortcut source target y =
      (s.afterMessage shortcut source target y).movedTo q := by
  unfold afterMessage
  split
  · exact deactivate_movedTo s _ _
  · split
    · exact destroy_movedTo s _ _
    · rfl

lemma row_movedTo (s : Sheet) (isParallel : Bool) (label : String) :
    (s.movedTo q).row isParallel label =
      ((s.row isParallel label).1.movedTo q, (s.row isParallel label).2) := by
  have hlast : (s.movedTo q).lastY = s.lastY := rfl
  unfold row
  rw [hlast]
  cases isParallel with
  | false => rfl
  | true =>
    cases s.lastY with
    | none => rfl
    | some y => rfl

lemma placeCreated_movedTo (s : Sheet) (code : String) (y : Number) :
    (s.movedTo q).placeCreated code y =
      ((s.placeCreated code y).1.movedTo q, (s.placeCreated code y).2) := by
  have hexpected : (s.movedTo q).expected = s.expected := rfl
  unfold placeCreated
  rw [hexpected]
  split
  · rfl
  · rfl

lemma number_movedTo (s : Sheet) (label : String) :
    (s.movedTo q).number label = ((s.number label).1.movedTo q, (s.number label).2) := by
  have hnumbering : (s.movedTo q).numbering = s.numbering := rfl
  unfold number
  rw [hnumbering]
  dsimp only
  split
  · rfl
  · rfl

lemma renumber_movedTo (s : Sheet) (a : AutoNumber) :
    (s.movedTo q).renumber a = (s.renumber a).movedTo q := by
  unfold renumber
  dsimp only
  split
  · rfl
  · rfl

lemma arrowNote_movedTo (s : Sheet) (note : ArrowNote) (source target : String) (y : Number) :
    (s.movedTo q).arrowNote note source target y = (s.arrowNote note source target y).movedTo q :=
  congrArg (fun t => reach t _) (shape_movedTo s .shapes _ _ _ _ _ _)

lemma selfMessage_movedTo (s : Sheet) (m : Message) (code label : String) (y : Number) :
    (s.movedTo q).selfMessage m code label y = (s.selfMessage m code label y).movedTo q :=
  congrArg (fun t => advance t 20) (line_movedTo s .messages _ _ _ _ _)

lemma crossMessage_movedTo (s : Sheet) (m : Message) (source target label : String) (y : Number) :
    (s.movedTo q).crossMessage m source target label y =
      (s.crossMessage m source target label y).movedTo q := by
  unfold crossMessage
  rw [placeCreated_movedTo]
  exact line_movedTo (s.placeCreated target y).1 _ _ _ _ _ _

lemma furtherTarget_movedTo (s : Sheet) (m : Message) (source : String) (y : Number)
    (extra : String) :
    furtherTarget m source y (s.movedTo q) extra =
      (furtherTarget m source y s extra).movedTo q := by
  have hcolumn : (s.movedTo q).hasColumn extra = s.hasColumn extra := rfl
  unfold furtherTarget
  rw [hcolumn]
  split
  · exact line_movedTo s _ _ _ _ _ _
  · rfl

lemma length_messages_movedTo (s : Sheet) :
    (s.movedTo q).layers.messages.length = s.layers.messages.length :=
  List.length_map _

lemma messageBetween_movedTo (s : Sheet) (m : Message) (source target : String) :
    (s.movedTo q).messageBetween m source target = (s.messageBetween m source target).movedTo q := by
  unfold messageBetween
  rw [row_movedTo]
  dsimp only
  rw [beforeMessage_movedTo, number_movedTo]
  dsimp only
  rw [length_messages_movedTo, selfMessage_movedTo, crossMessage_movedTo,
    ← apply_ite (movedTo q), List.foldl_hom (movedTo q) fun s extra =>
      furtherTarget_movedTo s m source _ extra]
  -- the note and the bars that end here come behind the arrows
  have hend : ∀ (t : Sheet) (y : Number),
      (if m.isReturn then ((t.movedTo q).afterMessage m.activation source target y).deactivate
          source y
        else (t.movedTo q).afterMessage m.activation source target y) =
        (if m.isReturn then (t.afterMessage m.activation source target y).deactivate source y
          else t.afterMessage m.activation source target y).movedTo q := by
    intro t y
    rw [afterMessage_movedTo, deactivate_movedTo, ← apply_ite (movedTo q)]
  cases m.note with
  | none =>
    dsimp only
    rw [hend]
    rfl
  | some note =>
    dsimp only
    rw [arrowNote_movedTo, hend]
    rfl

lemma message_movedTo (s : Sheet) (m : Message) :
    (s.movedTo q).message m = (s.message m).movedTo q := by
  have hends : (s.movedTo q).returnEnds = s.returnEnds := rfl
  have hcolumn : ∀ code, (s.movedTo q).hasColumn code = s.hasColumn code := fun _ => rfl
  unfold message
  rw [hends]
  split
  · rfl
  · rw [hcolumn, hcolumn]
    split
    · exact messageBetween_movedTo s m _ _
    · rfl

lemma border_movedTo (s : Sheet) (m : BorderMessage) :
    (s.movedTo q).border m = (s.border m).movedTo q := by
  have hcolumn : (s.movedTo q).hasColumn m.participant = s.hasColumn m.participant := rfl
  unfold border
  rw [hcolumn]
  split
  · rfl
  · rw [row_movedTo]
    generalize s.row m.isParallel m.label = r
    obtain ⟨s₁, y⟩ := r
    have hbefore : (if m.kind.isIncoming then
        (s₁.movedTo q).beforeMessage m.activation none m.participant y none else s₁.movedTo q) =
          (if m.kind.isIncoming then s₁.beforeMessage m.activation none m.participant y none
            else s₁).movedTo q := by
      rw [beforeMessage_movedTo, apply_ite (movedTo q)]
    have hend : ∀ t : Sheet, (if !m.kind.isIncoming && closes m.activation then
        (t.movedTo q).deactivate m.participant y
      else if m.activation == some "!!" then (t.movedTo q).destroy m.participant y
      else t.movedTo q) =
        (if !m.kind.isIncoming && closes m.activation then t.deactivate m.participant y
          else if m.activation == some "!!" then t.destroy m.participant y else t).movedTo q := by
      intro t
      rw [deactivate_movedTo, destroy_movedTo, apply_ite (movedTo q), apply_ite (movedTo q)]
    dsimp only
    rw [hbefore]
    generalize (if m.kind.isIncoming then s₁.beforeMessage m.activation none m.participant y none
      else s₁) = s₂
    rw [number_movedTo]
    generalize s₂.number m.label = r
    obtain ⟨s₃, label⟩ := r
    dsimp only
    rw [length_messages_movedTo, line_movedTo, hend]
    rfl

lemma snap_movedTo (s : Sheet) (code : String) :
    (s.movedTo q).snap code = (s.snap code).movedTo q := by
  have hlast : (s.movedTo q).lastCell = s.lastCell := rfl
  unfold snap
  rw [hlast]
  cases s.lastCell with
  | none => rfl
  | some place =>
    dsimp only [movedTo, Layers.map]
    rw [modify_map (inParent q)]
    · rfl
    · intro c
      rfl

lemma life_movedTo (s : Sheet) (e : LifeEvent) :
    (s.movedTo q).life e = (s.life e).movedTo q := by
  have hcolumn : (s.movedTo q).hasColumn e.participant = s.hasColumn e.participant := rfl
  have hdrawn : (s.movedTo q).justDrawn = s.justDrawn := rfl
  unfold life
  rw [hcolumn, hdrawn]
  split
  · rfl
  · cases e.kind with
    | activate =>
      dsimp only
      split
      · split
        · exact snap_movedTo (s.activate _ _ _ _) _
        · rfl
      · rfl
    | deactivate =>
      dsimp only
      split
      · exact deactivate_movedTo s _ _
      · exact deactivate_movedTo s _ _
    | destroy => exact congrArg (fun t => reach t _) (destroy_movedTo s _ _)
    | create => rfl
    | other => rfl

lemma note_movedTo (s : Sheet) (n : Note) : (s.movedTo q).note n = (s.note n).movedTo q :=
  congrArg (fun t => (advance t _).forget) (shape_movedTo s .shapes _ _ _ _ _ _)

lemma divider_movedTo (s : Sheet) (label : String) :
    (s.movedTo q).divider label = (s.divider label).movedTo q :=
  congrArg (fun t => (advance t 30).forget) (shape_movedTo (s.advance 10) .shapes _ _ _ _ _ _)

lemma delay_movedTo (s : Sheet) (label : String) :
    (s.movedTo q).delay label = (s.delay label).movedTo q := by
  unfold delay
  split
  · rfl
  · exact congrArg (fun t => (advance t 30).forget) (shape_movedTo s .shapes _ _ _ _ _ _)

lemma reference_movedTo (s : Sheet) (r : Reference) :
    (s.movedTo q).reference r = (s.reference r).movedTo q :=
  congrArg (fun t => (advance t _).forget) (shape_movedTo s .shapes _ _ _ _ _ _)

lemma plain_movedTo (s : Sheet) (e : Element) :
    (s.movedTo q).plain e = (s.plain e).movedTo q := by
  cases e with
  | message m => exact message_movedTo s m
  | border m => exact border_movedTo s m
  | life e => exact life_movedTo s e
  | fragment f => rfl
  | note n => exact note_movedTo s n
  | divider label => exact divider_movedTo s label
  | delay label => exact delay_movedTo s label
  | space size => rfl
  | reference r => exact reference_movedTo s r
  | autoNumber a => exact renumber_movedTo s a

/-- The sheet with other frames. -/
def withFrames (s : Sheet) (frames : List Cell) : Sheet :=
  { s with layers := { s.layers with frames := frames } }

lemma withFrames_movedTo (s : Sheet) (frames : List Cell) :
    (s.movedTo q).withFrames (frames.map (inParent q)) = (s.withFrames frames).movedTo q :=
  rfl

/-- A sheet with new frames among the older ones. -/
def amongFrames (s : Sheet) (older : List Cell) (place : Nat) : Sheet :=
  s.withFrames (older.take place ++ s.layers.frames ++ older.drop place)

lemma amongFrames_movedTo (s : Sheet) (older : List Cell) (place : Nat) :
    (s.movedTo q).amongFrames (older.map (inParent q)) place =
      (s.amongFrames older place).movedTo q := by
  unfold amongFrames
  rw [← withFrames_movedTo, List.map_append, List.map_append, List.map_take, List.map_drop]
  rfl

lemma frame_movedTo (s : Sheet) (f : Fragment Element) (place : Nat) (top bottom : Number)
    (sides : Number × Number) (lines : List (Number × String)) :
    (s.movedTo q).frame f place top bottom sides lines =
      (s.frame f place top bottom sides lines).movedTo q := by
  -- the frame is drawn on a sheet without frames, and what it draws is put among the others
  have hframe : ∀ t : Sheet, t.frame f place top bottom sides lines =
      (lines.foldl (fun t line => t.line .frames (bracketed line.2) sectionStyle
          ⟨sides.1, line.1⟩ ⟨sides.2, line.1⟩ [])
        (((t.withFrames []).shape .frames
            (if f.kind == "group" then ""
              else bracketed ((f.sections.head?.map Section.condition).getD f.label))
            (frameStyle f.color) sides.1 top (sides.2 - sides.1) (bottom - top)).shape .frames
          (if f.kind == "group" && !f.label.isEmpty then f.label else f.kind) tabStyle sides.1 top
          (.int (max 60 (textWidth
            (if f.kind == "group" && !f.label.isEmpty then f.label else f.kind)))) 20)).amongFrames
        t.layers.frames place := fun _ => rfl
  have hbare : (s.movedTo q).withFrames [] = (s.withFrames []).movedTo q := rfl
  rw [hframe, hframe, hbare, shape_movedTo, shape_movedTo,
    List.foldl_hom (movedTo q) fun t line => line_movedTo t .frames _ _ _ _ _]
  exact amongFrames_movedTo _ _ _

lemma length_frames_movedTo (s : Sheet) :
    (s.movedTo q).layers.frames.length = s.layers.frames.length :=
  List.length_map _

mutual

lemma draw_movedTo (depth : Nat) (s : Sheet) (e : Element) :
    draw depth (s.movedTo q) e = (draw depth s e).movedTo q := by
  cases e with
  | fragment f =>
    obtain ⟨kind, label, color, sections⟩ := f
    unfold draw
    dsimp only
    have hsections := drawSections_movedTo (depth + 1) (s.advance 30).forget true sections
    have hstart : ((s.movedTo q).advance 30).forget = ((s.advance 30).forget).movedTo q := rfl
    rw [hstart, hsections, length_frames_movedTo]
    generalize drawSections (depth + 1) (s.advance 30).forget true sections = r
    exact frame_movedTo ((r.1.advance 10).advance 10) _ _ _ _ _ _
  | _ =>
    unfold draw
    exact plain_movedTo s _

lemma drawSections_movedTo (depth : Nat) (s : Sheet) (isFirst : Bool) :
    (sections : List (Section Element)) → drawSections depth (s.movedTo q) isFirst sections =
      ((drawSections depth s isFirst sections).1.movedTo q,
        (drawSections depth s isFirst sections).2)
  | [] => rfl
  | ⟨condition, elements⟩ :: rest => by
    have hline : (if isFirst then s.movedTo q else (s.movedTo q).advance 20) =
        (if isFirst then s else s.advance 20).movedTo q := by
      cases isFirst
      · rfl
      · rfl
    unfold drawSections
    dsimp only
    rw [hline, drawAll_movedTo depth _ elements, drawSections_movedTo depth _ false rest]
    rfl

lemma drawAll_movedTo (depth : Nat) (s : Sheet) :
    (elements : List Element) →
      drawAll depth (s.movedTo q) elements = (drawAll depth s elements).movedTo q
  | [] => rfl
  | e :: rest => by
    unfold drawAll
    rw [draw_movedTo depth s e, drawAll_movedTo depth _ rest]

end

lemma finishColumn_movedTo (hideFootbox : Bool) (endY : Number) (s : Sheet) (c : Column) :
    finishColumn hideFootbox endY (s.movedTo q) c =
      ((finishColumn hideFootbox endY s c).1.movedTo q,
        (finishColumn hideFootbox endY s c).2) := by
  unfold finishColumn
  dsimp only
  rw [shape_movedTo, line_movedTo]
  split
  · rfl
  · rw [shape_movedTo]

lemma box_movedTo (footer : Number) (s : Sheet) (b : Box) :
    box footer (s.movedTo q) b = (box footer s b).movedTo q := by
  have hspan : (s.movedTo q).span b.participants 10 = s.span b.participants 10 := rfl
  unfold box
  rw [hspan]
  split
  · rfl
  · exact shape_movedTo s .boxes _ _ _ _ _ _

lemma finishAll_movedTo (hideFootbox : Bool) (endY : Number) (columns : List Column) (s : Sheet)
    (footer : Number) :
    columns.foldl (fun (s, footer) c =>
        let (s, y) := finishColumn hideFootbox endY s c
        (s, Number.max footer y)) (s.movedTo q, footer) =
      Prod.map (movedTo q) id (columns.foldl (fun (s, footer) c =>
        let (s, y) := finishColumn hideFootbox endY s c
        (s, Number.max footer y)) (s, footer)) := by
  induction columns generalizing s footer with
  | nil => rfl
  | cons c rest ih =>
    rw [List.foldl_cons, List.foldl_cons]
    dsimp only
    rw [finishColumn_movedTo]
    exact ih _ _

lemma finish_movedTo (s : Sheet) (d : Diagram) :
    (s.movedTo q).finish d = (s.finish d).movedTo q := by
  have hcolumns : ∀ t : Sheet, (t.movedTo q).columns = t.columns := fun _ => rfl
  have hcursor : ∀ t : Sheet, (t.movedTo q).cursor = t.cursor := fun _ => rfl
  unfold finish
  dsimp only
  rw [hcursor, hcolumns, List.foldl_hom (movedTo q) fun s c => deactivateAll_movedTo s _ _,
    hcolumns, finishAll_movedTo]
  exact List.foldl_hom (movedTo q) fun s b => box_movedTo _ s b

end Sheet

namespace Diagram

/-- **A sequence diagram in another cell.**  The sheet is the one in the first cell, moved. -/
lemma sheet_eq_movedTo (d : Diagram) (p q : String) : d.sheet q = (d.sheet p).movedTo q := by
  have hstart : Sheet.start d q = (Sheet.start d p).movedTo q := by
    unfold Sheet.start
    cases Sheet.titleOf d with
    | none => rfl
    | some t => rfl
  unfold sheet
  rw [hstart, Sheet.drawAll_movedTo, Sheet.finish_movedTo]

/-- The cells of a sequence diagram in another cell; there are none if there were none. -/
theorem draw_reparent (d : Diagram) (p q : String) :
    d.draw q = (d.draw p).map (List.map (Cell.reparent p q)) := by
  have hcells : (d.sheet q).layers.all = (d.sheet p).layers.all.map (Cell.reparent p q) := by
    rw [sheet_eq_movedTo d p q]
    refine (Layers.all_map _ _).trans (List.map_congr_left fun c hc => ?_)
    -- every cell lies in the cell around the drawing
    have hsound := ((Sheet.Sound.start d p).drawAll 0 d.elements).finish d
    have hties := hsound.free c (List.mem_append_left _ hc)
    have hparent : c.parent = p := congrArg Prod.fst hties
    rw [Cell.reparent, if_pos hparent, inParent]
  have hfault : (d.sheet q).fault = (d.sheet p).fault := by
    rw [sheet_eq_movedTo d p q]
    rfl
  unfold draw
  dsimp only
  rw [hcells, hfault]
  cases (d.sheet p).fault with
  | none => rfl
  | some e => rfl

end Diagram
end Sequence
end UmlDraw
