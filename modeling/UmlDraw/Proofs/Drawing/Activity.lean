/-
# Activity diagrams are drawn without loose ends

What an instruction has drawn is known by two cells, where the flow comes in and where it goes out.
If there are such cells, they are shapes, and every connector is drawn between two of them.

The main statements are

* `Activity.Instruction.leaves_draw` and the three lemmas beside it: what an instruction, a list of
  instructions and branches leave, by induction on the instruction;
* `Activity.Diagram.connected_draw`.
-/
import UmlDraw.Activity.Drawing
import UmlDraw.Proofs.Drawing.Canvas

namespace UmlDraw
namespace Activity

open Sketch

variable {k k' : Canvas}

/-- The cells of an instruction, as far as there are some, are shapes on the canvas. -/
structure Ends.On (e : Ends) (k : Canvas) : Prop where
  entry : k.IsEnd e.entry
  exit : k.IsEnd e.exit

/-- The cells that a list of instructions is known by so far are shapes on the canvas. -/
structure Chain.On (c : Chain) (k : Canvas) : Prop where
  entry : k.IsEnd c.entry
  exit : k.IsEnd c.exit

lemma Ends.On.grows {e : Ends} (h : e.On k) (hk : k.Grows k') : e.On k' :=
  ⟨h.entry.grows hk, h.exit.grows hk⟩

lemma Chain.On.grows {c : Chain} (h : c.On k) (hk : k.Grows k') : c.On k' :=
  ⟨h.entry.grows hk, h.exit.grows hk⟩

lemma on_pair {entry exit : String} (hentry : k.IsShape entry) (hexit : k.IsShape exit) :
    Ends.On ⟨entry, exit⟩ k :=
  ⟨Canvas.isEnd_some.2 hentry, Canvas.isEnd_some.2 hexit⟩

lemma on_start (y lastY : Rat) (k : Canvas) : Chain.On { y := y, lastY := lastY } k :=
  ⟨Canvas.isEnd_none k, Canvas.isEnd_none k⟩

lemma drawsShape_drawAround (value : String) (style : Style) (cx y : Rat) (size : Size)
    (k : Canvas) : (drawAround value style cx y size).DrawsShape k :=
  drawsShape_shape _ _ _ _ _ _ k

lemma drawsShape_drawDiamond (label : String) (color : Option String) (cx y : Rat) (k : Canvas) :
    (drawDiamond label color cx y).DrawsShape k :=
  drawsShape_drawAround _ _ _ _ _ k

lemma drawsShape_drawMerge (cx y : Rat) (height : Nat) (k : Canvas) :
    (drawMerge cx y height).DrawsShape k :=
  drawsShape_drawAround _ _ _ _ _ k

lemma adds_drawFlow {source target : Option String} (hsource : k.IsEnd source)
    (htarget : k.IsEnd target) (label color : Option String) (dashed : Bool) :
    (drawFlow source target label color dashed).Adds k := by
  unfold drawFlow
  split
  · refine (leaves_connect (hsource _ rfl) (htarget _ rfl) _ _).bind fun _ k' _ _ => ?_
    exact adds_pure _ k'
  · exact adds_pure _ k

lemma adds_drawPlain {source target : Option String} (hsource : k.IsEnd source)
    (htarget : k.IsEnd target) (label : Option String) :
    (drawPlain source target label).Adds k :=
  adds_drawFlow hsource htarget _ _ _

lemma adds_drawBack {source target : String} (hsource : k.IsShape source)
    (htarget : k.IsShape target) (label : Option String) :
    (drawBack source target label).Adds k := by
  unfold drawBack
  exact (leaves_connect hsource htarget _ _).bind fun _ k' _ _ => adds_pure _ k'

lemma leaves_drawStep (cx y : Rat) (s : Step) (k : Canvas) :
    (drawStep cx y s).Leaves k Ends.On := by
  unfold drawStep
  cases s with
  | action | start =>
    refine (drawsShape_drawAround _ _ _ _ _ k).bind fun id k' _ hid => ?_
    exact Leaves.pure (on_pair hid hid)
  | stop | finish =>
    refine (drawsShape_drawAround _ _ _ _ _ k).bind fun id k₁ _ hid => ?_
    refine (drawsShape_drawAround _ _ _ _ _ k₁).bind fun _ k₂ h₂ _ => ?_
    exact Leaves.pure (on_pair (hid.grows h₂) (hid.grows h₂))
  | kill =>
    refine (drawsShape_drawAround _ _ _ _ _ k).bind fun id k' _ hid => ?_
    exact Leaves.pure ⟨Canvas.isEnd_some.2 hid, Canvas.isEnd_none k'⟩
  | _ => exact Leaves.pure ⟨Canvas.isEnd_none k, Canvas.isEnd_none k⟩

lemma adds_drawNote (cx y : Rat) (n : Note) (k : Canvas) : (drawNote cx y n).Adds k := by
  unfold drawNote
  exact (drawsShape_drawAround _ _ _ _ _ k).bind fun _ k' _ _ => adds_pure _ k'

lemma leaves_join {c : Chain} {ends : Ends} (hc : c.On k) (hends : ends.On k)
    (exitLabel : Option String) : (c.join ends exitLabel).Leaves k Chain.On := by
  -- the rest is the same on whatever canvas the flow leaves, if there is one
  have hrest : ∀ k', k.Grows k' → (
      if ends.entry.isSome || ends.exit.isSome then
        pure { c with entry := c.entry.or ends.entry, pending := none, exit := ends.exit,
                      exitLabel := exitLabel }
      else pure { c with entry := c.entry.or ends.entry, pending := none } :
        Sketch Chain).Leaves k' Chain.On := by
    intro k' hk
    have hentry := (hc.entry.or hends.entry).grows hk
    split
    · exact Leaves.pure ⟨hentry, hends.exit.grows hk⟩
    · exact Leaves.pure ⟨hentry, hc.exit.grows hk⟩
  unfold Chain.join
  dsimp only
  split
  · next source target hsource htarget =>
    have hs : k.IsEnd source := hsource ▸ hc.exit
    have ht : k.IsEnd target := htarget ▸ hends.entry
    split
    · exact (adds_drawFlow hs ht _ _ _).bind fun _ k' hk _ => hrest k' hk
    · exact (adds_drawPlain hs ht _).bind fun _ k' hk _ => hrest k' hk
  · exact hrest k (Canvas.Grows.refl k)

namespace Instruction

/-- A branch is joined to the decision before it and to the place where branches meet; an empty one
is a connector between the two. -/
lemma leaves_joinBranch {β : Type} {ends : Ends} {source target : String} {label : Option String}
    {s : Sketch β} {Q : β → Canvas → Prop} (hsource : k.IsShape source)
    (htarget : k.IsShape target) (hends : ends.On k)
    (hs : ∀ k', k.Grows k' → s.Leaves k' Q) :
    (do
      drawPlain source (ends.entry.or target) label
      if ends.entry.isSome then drawPlain ends.exit target none
      s : Sketch β).Leaves k Q := by
  have htarget := Canvas.isEnd_some.2 htarget
  refine (adds_drawPlain (Canvas.isEnd_some.2 hsource) (hends.entry.or htarget) _).bind ?_
  intro _ k₁ h₁ _
  dsimp only
  split
  · refine (adds_drawPlain (hends.exit.grows h₁) (htarget.grows h₁) _).bind fun _ k₂ h₂ _ => ?_
    exact hs k₂ (h₁.trans h₂)
  · exact hs k₁ h₁

-- The four lemmas go through an instruction as the four functions do.  Cells of earlier steps are
-- taken along to the canvas `kᵢ` that the step after them leaves.
mutual

lemma leaves_draw (lanes : Keyed Rat) (cx y : Rat) (k : Canvas) :
    (i : Instruction) → (draw lanes cx y i).Leaves k Ends.On
  | step _ s => by
    unfold draw
    exact leaves_drawStep cx y s k
  | choice _ c first others last => by
    unfold draw
    split
    · refine (drawsShape_drawDiamond _ _ _ _ k).bind fun id k' _ hid => ?_
      exact Leaves.pure (on_pair hid hid)
    · refine (drawsShape_drawDiamond _ _ _ _ k).bind fun diamond k₁ h₁ hdiamond => ?_
      refine (drawsShape_drawMerge _ _ _ k₁).bind fun merge k₂ h₂ hmerge => ?_
      refine (leaves_drawAll lanes _ k₂ (on_start _ _ k₂) first).bind fun ends k₃ h₃ hends => ?_
      have hdiamond₃ := hdiamond.grows (h₂.trans h₃)
      have hmerge₃ := hmerge.grows h₃
      refine leaves_joinBranch hdiamond₃ hmerge₃ hends fun k₄ h₄ => ?_
      have hdiamond₄ := hdiamond₃.grows h₄
      have hmerge₄ := hmerge₃.grows h₄
      refine (leaves_drawOthers lanes _ _ k₄ hmerge₄ hdiamond₄ others).bind ?_
      intro ⟨lastDiamond, left⟩ k₅ h₅ hlast
      refine (leaves_drawAll lanes _ k₅ (on_start _ _ k₅) last).bind fun ends k₆ h₆ hends => ?_
      have hmerge₆ := hmerge₄.grows (h₅.trans h₆)
      refine leaves_joinBranch (hlast.grows h₆) hmerge₆ hends fun k₇ h₇ => ?_
      have hgrows := h₅.trans (h₆.trans h₇)
      exact Leaves.pure (on_pair (hdiamond₄.grows hgrows) (hmerge₄.grows hgrows))
  | loop _ l body => by
    unfold draw
    cases l.test with
    | before =>
      refine (drawsShape_drawDiamond _ _ _ _ k).bind fun diamond k₁ h₁ hdiamond => ?_
      refine (leaves_drawAll lanes _ k₁ (on_start _ _ k₁) body).bind fun ends k₂ h₂ hends => ?_
      have hdiamond₂ := hdiamond.grows h₂
      refine (adds_drawPlain (Canvas.isEnd_some.2 hdiamond₂) hends.entry _).bind ?_
      intro _ k₃ h₃ _
      have hdiamond₃ := hdiamond₂.grows h₃
      dsimp only
      split
      · next exit hexit =>
        have hexit₃ := (hends.exit exit hexit).grows h₃
        refine (adds_drawBack hexit₃ hdiamond₃ _).bind fun _ k₄ h₄ _ => ?_
        exact Leaves.pure (on_pair (hdiamond₃.grows h₄) (hdiamond₃.grows h₄))
      · exact Leaves.pure (on_pair hdiamond₃ hdiamond₃)
    | after startLabel =>
      -- the start shape is there only if it has a label
      have hbody : ∀ start inner k', k'.IsEnd start → (do
          let ends ← drawAll lanes cx { y := inner, lastY := inner } body
          drawPlain start ends.entry none
          let diamond ← drawDiamond l.condition l.color cx
            (inner + (sizeAll body).height + Size.rowGap)
          drawPlain ends.exit diamond none
          let top := (start.or ends.entry).getD diamond
          drawBack diamond top l.againLabel
          pure ⟨some top, some diamond⟩ : Sketch Ends).Leaves k' Ends.On := by
        intro start inner k' hstart
        refine (leaves_drawAll lanes _ k' (on_start _ _ k') body).bind fun ends k₂ h₂ hends => ?_
        have hstart₂ := hstart.grows h₂
        refine (adds_drawPlain hstart₂ hends.entry _).bind fun _ k₃ h₃ _ => ?_
        refine (drawsShape_drawDiamond _ _ _ _ k₃).bind fun diamond k₄ h₄ hdiamond => ?_
        have hexit := hends.exit.grows (h₃.trans h₄)
        refine (adds_drawPlain hexit (Canvas.isEnd_some.2 hdiamond) _).bind fun _ k₅ h₅ _ => ?_
        have hdiamond₅ := hdiamond.grows h₅
        have hor := (hstart₂.or hends.entry).grows (h₃.trans (h₄.trans h₅))
        have htop := hor.getD hdiamond₅
        refine (adds_drawBack hdiamond₅ htop _).bind fun _ k₆ h₆ _ => ?_
        exact Leaves.pure (on_pair (htop.grows h₆) (hdiamond₅.grows h₆))
      cases startLabel with
      | none => exact hbody none y k (Canvas.isEnd_none k)
      | some label =>
        refine (drawsShape_drawAround _ _ _ _ _ k).bind fun id k₁ _ hid => ?_
        exact hbody (some id) _ k₁ (Canvas.isEnd_some.2 hid)
  | switch _ condition color cases => by
    unfold draw
    refine (drawsShape_drawDiamond _ _ _ _ k).bind fun diamond k₁ h₁ hdiamond => ?_
    refine (drawsShape_drawMerge _ _ _ k₁).bind fun merge k₂ h₂ hmerge => ?_
    have hdiamond₂ := hdiamond.grows h₂
    refine (leaves_drawBranches lanes _ _ k₂ hdiamond₂ hmerge cases).bind fun _ k₃ h₃ _ => ?_
    exact Leaves.pure (on_pair (hdiamond₂.grows h₃) (hmerge.grows h₃))
  | fork _ _ branches => by
    unfold draw
    dsimp only
    refine (drawsShape_shape _ _ _ _ _ _ k).bind fun top k₁ h₁ htop => ?_
    refine (drawsShape_shape _ _ _ _ _ _ k₁).bind fun bottom k₂ h₂ hbottom => ?_
    have htop₂ := htop.grows h₂
    refine (leaves_drawBranches lanes _ _ k₂ htop₂ hbottom branches).bind fun _ k₃ h₃ _ => ?_
    exact Leaves.pure (on_pair (htop₂.grows h₃) (hbottom.grows h₃))
  | partition _ name color body => by
    unfold draw
    refine (drawsShape_drawAround _ _ _ _ _ k).bind fun frame k₁ h₁ hframe => ?_
    refine (leaves_drawAll lanes _ k₁ (on_start _ _ k₁) body).bind fun ends k₂ h₂ hends => ?_
    split
    · exact Leaves.pure (on_pair (hframe.grows h₂) (hframe.grows h₂))
    · exact Leaves.pure hends

lemma leaves_drawAll (lanes : Keyed Rat) (cx : Rat) {c : Chain} (k : Canvas) (hc : c.On k) :
    (is : List Instruction) → (drawAll lanes cx c is).Leaves k Ends.On
  | [] => by
    unfold drawAll
    exact Leaves.pure ⟨hc.entry, hc.exit⟩
  | i :: rest => by
    unfold drawAll
    split
    · next heq => cases heq
    · next heq =>
      cases heq
      refine leaves_drawAll lanes cx k ?_ rest
      exact ⟨hc.entry, hc.exit⟩
    · next n note _ heq =>
      obtain ⟨rfl, rfl⟩ := List.cons.inj heq
      refine (adds_drawNote _ _ _ k).bind fun _ k' hk _ => ?_
      have hc' := hc.grows hk
      refine leaves_drawAll lanes cx k' ?_ rest
      -- a note takes room at its side and leaves the flow as it is
      cases note.isLeft with
      | true => exact ⟨hc'.entry, hc'.exit⟩
      | false => exact ⟨hc'.entry, hc'.exit⟩
    · next heq =>
      cases heq
      refine (leaves_draw lanes _ _ k i).bind fun ends k₁ h₁ hends => ?_
      refine (leaves_join (hc.grows h₁) hends _).bind fun c k₂ _ hc => ?_
      refine leaves_drawAll lanes cx k₂ ?_ rest
      cases i.isAside with
      | true => exact hc
      | false => exact ⟨hc.entry, hc.exit⟩

lemma leaves_drawOthers (lanes : Keyed Rat) (y left : Rat) {merge before : String} (k : Canvas)
    (hmerge : k.IsShape merge) (hbefore : k.IsShape before) :
    (others : List (Branch Instruction)) →
      (drawOthers lanes y merge before left others).Leaves k fun r k' => k'.IsShape r.1
  | [] => by
    unfold drawOthers
    exact Leaves.pure hbefore
  | ⟨condition, label, body⟩ :: rest => by
    unfold drawOthers
    refine (drawsShape_drawDiamond _ _ _ _ k).bind fun diamond k₁ h₁ hdiamond => ?_
    have hbefore₁ := Canvas.isEnd_some.2 (hbefore.grows h₁)
    refine (adds_drawPlain hbefore₁ (Canvas.isEnd_some.2 hdiamond) _).bind fun _ k₂ h₂ _ => ?_
    refine (leaves_drawAll lanes _ k₂ (on_start _ _ k₂) body).bind fun ends k₃ h₃ hends => ?_
    have hdiamond₃ := hdiamond.grows (h₂.trans h₃)
    have hmerge₃ := hmerge.grows (h₁.trans (h₂.trans h₃))
    refine leaves_joinBranch hdiamond₃ hmerge₃ hends fun k₄ h₄ => ?_
    exact leaves_drawOthers lanes y _ k₄ (hmerge₃.grows h₄) (hdiamond₃.grows h₄) rest

lemma leaves_drawBranches (lanes : Keyed Rat) (y left : Rat) {source target : String} (k : Canvas)
    (hsource : k.IsShape source) (htarget : k.IsShape target) :
    (branches : List (Branch Instruction)) →
      (drawBranches lanes y source target left branches).Adds k
  | [] => by
    unfold drawBranches
    exact adds_pure _ k
  | ⟨condition, _, body⟩ :: rest => by
    unfold drawBranches
    dsimp only
    refine (leaves_drawAll lanes _ k (on_start _ _ k) body).bind fun ends k₁ h₁ hends => ?_
    have hsource₁ := hsource.grows h₁
    have htarget₁ := htarget.grows h₁
    refine (adds_drawPlain (Canvas.isEnd_some.2 hsource₁) hends.entry _).bind fun _ k₂ h₂ _ => ?_
    refine (adds_drawPlain (hends.exit.grows h₂) (Canvas.isEnd_some.2 (htarget₁.grows h₂)) _).bind
      fun _ k₃ h₃ _ => ?_
    exact leaves_drawBranches lanes _ _ k₃ (hsource₁.grows (h₂.trans h₃))
      (htarget₁.grows (h₂.trans h₃)) rest

end

end Instruction

namespace Diagram

lemma adds_drawLanes (places : Keyed (Nat × Nat)) (y height : Nat) (ls : List Lane) (k : Canvas) :
    (drawLanes places y height ls).Adds k := by
  induction ls generalizing k with
  | nil => exact adds_pure _ k
  | cons l rest ih =>
    unfold drawLanes
    split
    · exact (drawsShape_shape _ _ _ _ _ _ k).bind fun _ k' _ _ => ih k'
    · exact ih k

lemma adds_sketch (d : Diagram) (k : Canvas) : d.sketch.Adds k := by
  have hbody : ∀ (top : Nat) (size : Size) k', (
      if d.lanes.keys.isEmpty then do
        let _ ← Instruction.drawAll Keyed.empty (margin + size.width / 2)
          { y := top, lastY := top } d.instructions
      else do
        let places := d.placeLanes margin d.laneNames Keyed.empty
        let centers : Keyed Rat := places.map fun _ place => place.1 + place.2 / 2
        drawLanes places (top - margin) (size.height + laneHeader + margin * 2) d.lanes.values
        let first := (d.laneNames.head?.bind centers.get?).getD 0
        let y : Rat := top + laneHeader
        let _ ← Instruction.drawAll centers first { y := y, lastY := y } d.instructions :
      Sketch Unit).Adds k' := by
    intro top size k'
    split
    · exact (Instruction.leaves_drawAll _ _ k' (on_start _ _ k') _).bind fun _ k₁ _ _ =>
        adds_pure _ k₁
    · refine (adds_drawLanes _ _ _ _ k').bind fun _ k₁ _ _ => ?_
      exact (Instruction.leaves_drawAll _ _ k₁ (on_start _ _ k₁) _).bind fun _ k₂ _ _ =>
        adds_pure _ k₂
  unfold sketch
  cases d.title.filter fun t => !t.isEmpty with
  | none => exact hbody _ _ k
  | some t => exact (drawsShape_shape _ _ _ _ _ _ k).bind fun _ k' _ _ => hbody _ _ k'

/-- Each connector of an activity diagram joins two shapes of the drawing. -/
theorem connected_draw (d : Diagram) (parent : String) :
    Cell.Connected parent (d.draw parent) :=
  (adds_sketch d _).connected

end Diagram
end Activity
end UmlDraw
