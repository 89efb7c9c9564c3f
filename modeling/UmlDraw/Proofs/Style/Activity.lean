/-
# The styles of activity diagrams

The main statement is `Activity.Diagram.built_sketch`: what an activity diagram is drawn with.
-/
import UmlDraw.Activity.Drawing
import UmlDraw.Proofs.Style.Sketch

namespace UmlDraw
namespace Activity

open Sketch Style

variable {S : String → Prop}

/-- The color of an instruction, not of those inside. -/
def Instruction.color? : Instruction → Option String
  | step _ (.action _ color) => color
  | step _ (.arrow a) => a.color
  | step _ (.note n) => n.color
  | step _ _ => none
  | choice _ c _ _ _ => c.color
  | loop _ l _ => l.color
  | switch _ _ color _ => color
  | fork _ _ _ => none
  | partition _ _ color _ => color

/-- The color of an instruction is as described. -/
def Instruction.Paints (S : String → Prop) (i : Instruction) : Prop :=
  Color.Fits S i.color?

/-- The colors of a diagram are as described. -/
structure Diagram.Paints (S : String → Prop) (d : Diagram) : Prop where
  instructions : ∀ i ∈ Instruction.walkAll d.instructions, i.Paints S
  lanes : Keyed.All (fun l => Color.Fits S l.color) d.lanes

lemma Diagram.paints_any (d : Diagram) : d.Paints fun _ => True where
  instructions := fun _ _ => Color.fits_any
  lanes := fun _ _ _ => Color.fits_any

/-! ### Styles -/

lemma isKnown_actionStyle {color : Option String} (h : Color.Fits S color) :
    (actionStyle color).IsKnown S :=
  (knows_of (by repeat constructor)).update (h.entry (by decide))

lemma isKnown_startStyle : startStyle.IsKnown S :=
  (knows_of (by repeat constructor)).update (by repeat constructor)

lemma isKnown_finalStyle : finalStyle.IsKnown S :=
  (knows_of (by repeat constructor)).update (by repeat constructor)

lemma isKnown_killStyle : killStyle.IsKnown S :=
  (knows_of (by repeat constructor)).update (by repeat constructor)

lemma isKnown_mergeStyle : mergeStyle.IsKnown S :=
  knows_of (by repeat constructor)

lemma isKnown_barStyle : barStyle.IsKnown S :=
  knows_of (by repeat constructor)

lemma isKnown_titleStyle : titleStyle.IsKnown S :=
  knows_of (by repeat constructor)

lemma isKnown_diamondStyle {color : Option String} (h : Color.Fits S color) :
    (diamondStyle color).IsKnown S := by
  have hfill := h.fillColor "#FFFDE7" (.fillColor (by decide))
  refine knows_of ?_
  repeat first | exact hfill | constructor

lemma isKnown_partitionStyle {color : Option String} (h : Color.Fits S color) :
    (partitionStyle color).IsKnown S := by
  have hfill := h.fillColor "none" (.fillColor (by decide))
  refine knows_of ?_
  repeat first | exact hfill | constructor

lemma isKnown_noteStyle {color : Option String} (h : Color.Fits S color) :
    (noteStyle color).IsKnown S := by
  have hfill := h.fillColor "#FFF2CC" (.fillColor (by decide))
  refine knows_of ?_
  repeat first | exact hfill | constructor

lemma isKnown_laneStyle {color : Option String} (h : Color.Fits S color) :
    (laneStyle color).IsKnown S := by
  have hfill := h.fillColor "none" (.fillColor (by decide))
  refine knows_of ?_
  repeat first | exact hfill | constructor

lemma isKnown_flowStyle {color : Option String} (h : Color.Fits S color) (dashed : Bool) :
    (flowStyle color dashed).IsKnown S := by
  have hdashed : Knows S (if dashed then [("dashed", 1)] else []) := by
    cases dashed
    all_goals repeat constructor
  exact (knows_of (by repeat constructor)).update ((h.entry (by decide)).append hdashed)

lemma isKnown_loopBackStyle : loopBackStyle.IsKnown S :=
  knows_of (by repeat constructor)

/-! ### Pieces -/

/-- The connector line before the next instruction has a color as described. -/
def Chain.Paints (S : String → Prop) (c : Chain) : Prop :=
  ∀ a, c.pending = some a → Color.Fits S a.color

lemma paints_of_pending {c : Chain} (h : c.pending = none) : c.Paints S := by
  intro a ha
  rw [h] at ha
  cases ha

lemma built_drawDiamond (label : String) {color : Option String} (h : Color.Fits S color)
    (cx y : Rat) : Built (IsKnown S) (drawDiamond label color cx y) fun _ => True :=
  (built_shape (isKnown_diamondStyle h)).any

lemma built_drawMerge (cx y : Rat) (height : Nat) :
    Built (IsKnown S) (drawMerge cx y height) fun _ => True :=
  (built_shape isKnown_mergeStyle).any

lemma built_drawFlow (source target label : Option String) {color : Option String}
    (h : Color.Fits S color) (dashed : Bool) :
    Built (IsKnown S) (drawFlow source target label color dashed) fun _ => True := by
  unfold drawFlow
  split
  · exact (built_connect (isKnown_flowStyle h dashed)).then fun _ => built_pure _
  · exact built_pure _

lemma built_drawPlain (source target label : Option String) :
    Built (IsKnown S) (drawPlain source target label) fun _ => True :=
  built_drawFlow _ _ _ Color.fits_none false

lemma built_drawBack (source target : String) (label : Option String) :
    Built (IsKnown S) (drawBack source target label) fun _ => True :=
  (built_connect isKnown_loopBackStyle).then fun _ => built_pure _

lemma built_drawStep {n : Node} {s : Step} (h : (Instruction.step n s).Paints S) (cx y : Rat) :
    Built (IsKnown S) (drawStep cx y s) fun _ => True := by
  unfold drawStep
  cases s with
  | action label color =>
    exact (built_shape (isKnown_actionStyle h)).then fun id => built_pure _
  | start => exact (built_shape isKnown_startStyle).then fun id => built_pure _
  | stop | finish =>
    refine (built_shape isKnown_finalStyle).then fun id => ?_
    exact (built_shape isKnown_startStyle).then fun _ => built_pure _
  | kill => exact (built_shape isKnown_killStyle).then fun id => built_pure _
  | leave | arrow | note => exact built_pure _

lemma built_drawNote {n : Note} (h : Color.Fits S n.color) (cx y : Rat) :
    Built (IsKnown S) (drawNote cx y n) fun _ => True :=
  (built_shape (isKnown_noteStyle h)).then fun _ => built_pure _

/-- Behind an instruction no connector line waits any more. -/
lemma built_join {c : Chain} (h : c.Paints S) (ends : Ends) (exitLabel : Option String) :
    Built (IsKnown S) (c.join ends exitLabel) fun c' => c'.pending = none := by
  have hrest : Built (IsKnown S) (
      if ends.entry.isSome || ends.exit.isSome then
        pure { c with entry := c.entry.or ends.entry, pending := none, exit := ends.exit,
                      exitLabel := exitLabel }
      else pure { c with entry := c.entry.or ends.entry, pending := none } :
        Sketch Chain) fun c' => c'.pending = none := by
    split
    · exact .pure rfl
    · exact .pure rfl
  unfold Chain.join
  dsimp only
  split
  · split
    · next a ha => exact (built_drawFlow _ _ _ (h a ha) _).then fun _ => hrest
    · exact (built_drawPlain _ _ _).then fun _ => hrest
  · exact hrest

/-! ### Instructions -/

namespace Instruction

/-- A branch is joined to the decision before it and to the place where branches meet. -/
lemma built_joinBranch {β : Type} {ends : Ends} {source target : String} {label : Option String}
    {s : Sketch β} {Q : β → Prop} (hs : Built (IsKnown S) s Q) :
    Built (IsKnown S) (do
      drawPlain source (ends.entry.or target) label
      if ends.entry.isSome then drawPlain ends.exit target none
      s : Sketch β) Q := by
  refine (built_drawPlain _ _ _).then fun _ => ?_
  dsimp only
  split
  · exact (built_drawPlain _ _ _).then fun _ => hs
  · exact hs

mutual

lemma built_draw (lanes : Keyed Rat) (cx y : Rat) :
    (i : Instruction) → (∀ j ∈ walk i, j.Paints S) →
      Built (IsKnown S) (draw lanes cx y i) fun _ => True
  | step n s, h => by
    unfold draw
    exact built_drawStep (h _ List.mem_cons_self) cx y
  | choice n c first others last, h => by
    obtain ⟨hi, hinside⟩ := List.forall_mem_cons.1 h
    obtain ⟨hfront, hlast⟩ := List.forall_mem_append.1 hinside
    obtain ⟨hfirst, hothers⟩ := List.forall_mem_append.1 hfront
    unfold draw
    split
    · exact (built_drawDiamond _ hi _ _).then fun _ => built_pure _
    · refine (built_drawDiamond _ hi _ _).then fun diamond => ?_
      refine (built_drawMerge _ _ _).then fun merge => ?_
      refine (built_drawAll lanes _ (paints_of_pending rfl) first hfirst).then fun ends => ?_
      refine built_joinBranch ?_
      refine (built_drawOthers lanes _ _ _ _ others hothers).then fun ⟨lastDiamond, left⟩ => ?_
      refine (built_drawAll lanes _ (paints_of_pending rfl) last hlast).then fun ends => ?_
      exact built_joinBranch (built_pure _)
  | loop n l body, h => by
    obtain ⟨hi, hbody⟩ := List.forall_mem_cons.1 h
    unfold draw
    cases l.test with
    | before =>
      refine (built_drawDiamond _ hi _ _).then fun diamond => ?_
      refine (built_drawAll lanes _ (paints_of_pending rfl) body hbody).then fun ends => ?_
      refine (built_drawPlain _ _ _).then fun _ => ?_
      dsimp only
      split
      · exact (built_drawBack _ _ _).then fun _ => built_pure _
      · exact built_pure _
    | after startLabel =>
      have hrest : ∀ (start : Option String) (inner : Rat), Built (IsKnown S) (do
          let ends ← drawAll lanes cx { y := inner, lastY := inner } body
          drawPlain start ends.entry none
          let diamond ← drawDiamond l.condition l.color cx
            (inner + (sizeAll body).height + Size.rowGap)
          drawPlain ends.exit diamond none
          let top := (start.or ends.entry).getD diamond
          drawBack diamond top l.againLabel
          pure ⟨some top, some diamond⟩ : Sketch Ends) fun _ => True := by
        intro start inner
        refine (built_drawAll lanes _ (paints_of_pending rfl) body hbody).then fun ends => ?_
        refine (built_drawPlain _ _ _).then fun _ => ?_
        refine (built_drawDiamond _ hi _ _).then fun diamond => ?_
        refine (built_drawPlain _ _ _).then fun _ => ?_
        exact (built_drawBack _ _ _).then fun _ => built_pure _
      cases startLabel with
      | none => exact hrest none y
      | some label =>
        exact (built_shape (isKnown_actionStyle Color.fits_none)).then fun id => hrest (some id) _
  | switch n condition color cases, h => by
    obtain ⟨hi, hcases⟩ := List.forall_mem_cons.1 h
    unfold draw
    refine (built_drawDiamond _ hi _ _).then fun diamond => ?_
    refine (built_drawMerge _ _ _).then fun merge => ?_
    exact (built_drawBranches lanes _ _ _ _ cases hcases).then fun _ => built_pure _
  | fork n isSplit branches, h => by
    obtain ⟨-, hbranches⟩ := List.forall_mem_cons.1 h
    unfold draw
    dsimp only
    refine (built_shape isKnown_barStyle).then fun top => ?_
    refine (built_shape isKnown_barStyle).then fun bottom => ?_
    exact (built_drawBranches lanes _ _ _ _ branches hbranches).then fun _ => built_pure _
  | partition n name color body, h => by
    obtain ⟨hi, hbody⟩ := List.forall_mem_cons.1 h
    unfold draw
    refine (built_shape (isKnown_partitionStyle hi)).then fun frame => ?_
    refine (built_drawAll lanes _ (paints_of_pending rfl) body hbody).then fun ends => ?_
    split
    · exact built_pure _
    · exact built_pure _

lemma built_drawAll (lanes : Keyed Rat) (cx : Rat) {c : Chain} (hc : c.Paints S) :
    (is : List Instruction) → (∀ j ∈ walkAll is, j.Paints S) →
      Built (IsKnown S) (drawAll lanes cx c is) fun _ => True
  | [], _ => by
    unfold drawAll
    exact built_pure _
  | i :: rest, h => by
    obtain ⟨hi, hrest⟩ := List.forall_mem_append.1 h
    unfold drawAll
    split
    · next heq => cases heq
    · next n a _ heq =>
      obtain ⟨rfl, rfl⟩ := List.cons.inj heq
      refine built_drawAll lanes cx ?_ rest hrest
      -- the connector line waits for the next instruction
      intro a' ha'
      rw [← Option.some.inj ha']
      exact hi _ List.mem_cons_self
    · next n note _ heq =>
      obtain ⟨rfl, rfl⟩ := List.cons.inj heq
      refine (built_drawNote (hi _ List.mem_cons_self) _ _).then fun _ => ?_
      exact built_drawAll lanes cx (paints_of_pending rfl) rest hrest
    · next heq =>
      cases heq
      refine (built_draw lanes _ _ i hi).then fun ends => ?_
      refine (built_join hc ends _).bind fun c' hc' => ?_
      refine built_drawAll lanes cx (paints_of_pending ?_) rest hrest
      split
      · exact hc'
      · exact hc'

lemma built_drawOthers (lanes : Keyed Rat) (y left : Rat) (merge before : String) :
    (others : List (Branch Instruction)) → (∀ j ∈ walkBranches others, j.Paints S) →
      Built (IsKnown S) (drawOthers lanes y merge before left others) fun _ => True
  | [], _ => by
    unfold drawOthers
    exact built_pure _
  | ⟨condition, label, body⟩ :: rest, h => by
    obtain ⟨hbody, hrest⟩ := List.forall_mem_append.1 h
    unfold drawOthers
    refine (built_drawDiamond _ Color.fits_none _ _).then fun diamond => ?_
    refine (built_drawPlain _ _ _).then fun _ => ?_
    refine (built_drawAll lanes _ (paints_of_pending rfl) body hbody).then fun ends => ?_
    refine built_joinBranch ?_
    exact built_drawOthers lanes y _ _ _ rest hrest

lemma built_drawBranches (lanes : Keyed Rat) (y left : Rat) (source target : String) :
    (branches : List (Branch Instruction)) → (∀ j ∈ walkBranches branches, j.Paints S) →
      Built (IsKnown S) (drawBranches lanes y source target left branches) fun _ => True
  | [], _ => by
    unfold drawBranches
    exact built_pure _
  | ⟨condition, label, body⟩ :: rest, h => by
    obtain ⟨hbody, hrest⟩ := List.forall_mem_append.1 h
    unfold drawBranches
    dsimp only
    refine (built_drawAll lanes _ (paints_of_pending rfl) body hbody).then fun ends => ?_
    refine (built_drawPlain _ _ _).then fun _ => ?_
    refine (built_drawPlain _ _ _).then fun _ => ?_
    exact built_drawBranches lanes _ _ _ _ rest hrest

end

end Instruction

namespace Diagram

variable {d : Diagram}

lemma built_drawLanes (places : Keyed (Nat × Nat)) (y height : Nat) {ls : List Lane}
    (h : ∀ l ∈ ls, Color.Fits S l.color) :
    Built (IsKnown S) (drawLanes places y height ls) fun _ => True := by
  induction ls with
  | nil => exact built_pure _
  | cons l rest ih =>
    obtain ⟨hl, hrest⟩ := List.forall_mem_cons.1 h
    unfold drawLanes
    split
    · exact (built_shape (isKnown_laneStyle hl)).then fun _ => ih hrest
    · exact ih hrest

lemma Paints.values (h : d.Paints S) : ∀ l ∈ d.lanes.values, Color.Fits S l.color := by
  intro l hl
  obtain ⟨⟨name, _⟩, hentry, rfl⟩ := List.mem_map.1 hl
  exact h.lanes name _ (Keyed.get?_eq_some_iff.2 hentry)

/-- What an activity diagram is drawn with. -/
theorem built_sketch (h : d.Paints S) : Built (IsKnown S) d.sketch fun _ => True := by
  have hbody : ∀ (top : Nat) (size : Size), Built (IsKnown S) (
      if d.lanes.keys.isEmpty then do
        let _ ← Instruction.drawAll Keyed.empty (margin + size.width / 2)
          { y := top, lastY := top } d.instructions
      else do
        let places := d.placeLanes margin d.laneNames Keyed.empty
        let centers : Keyed Rat := places.map fun _ place => place.1 + place.2 / 2
        drawLanes places (top - margin) (size.height + laneHeader + margin * 2) d.lanes.values
        let first := (d.laneNames.head?.bind centers.get?).getD 0
        let y : Rat := top + laneHeader
        let _ ← Instruction.drawAll centers first { y := y, lastY := y } d.instructions :
      Sketch Unit) fun _ => True := by
    intro top size
    split
    · exact (Instruction.built_drawAll _ _ (paints_of_pending rfl) _ h.instructions).then
        fun _ => built_pure _
    · refine (built_drawLanes _ _ _ h.values).then fun _ => ?_
      exact (Instruction.built_drawAll _ _ (paints_of_pending rfl) _ h.instructions).then
        fun _ => built_pure _
  unfold sketch
  cases d.title.filter fun t => !t.isEmpty with
  | none => exact hbody _ _
  | some t => exact (built_shape isKnown_titleStyle).then fun _ => hbody _ _

end Diagram
end Activity
end UmlDraw
