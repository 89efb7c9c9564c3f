/-
# Every instruction of an activity diagram is drawn once

The instructions of a diagram are those that its lines read, and each of them has shapes of its own.

The main statements are

* `Reader.keeps_apply`: what a line about instructions leaves as it is;
* `Instruction.addsShapes_draw` and the three lemmas beside it: the shapes of an instruction, of a
  list of instructions and of branches, by induction on the instruction;
* `Diagram.countP_draw_read`: the shapes of the drawing of a text.
-/
import Mathlib.Algebra.BigOperators.Group.List.Basic
import Mathlib.Algebra.Ring.Nat
import Mathlib.Tactic.Lemma
import UmlDraw.Activity.Drawing
import UmlDraw.Activity.Reader
import UmlDraw.Proofs.Activity.Outline
import UmlDraw.Proofs.Data.Keyed
import UmlDraw.Proofs.Drawing.Canvas

namespace UmlDraw

/-! ## What a line leaves as it is

Apart from the lines for the title, for a lane and for the start of a text, a line is about the
instructions only: it changes the open lists and blocks, the number of instructions and the waiting
connector. -/

namespace Activity

/-- The line is about the instructions only. -/
def Line.isInstruction : Line → Bool
  | title _ | lane _ | text _ => false
  | step _ | choice _ | elseIf .. | otherwise _ | endChoice | whileLoop _ | endWhile _
  | repeatLoop _ | repeatWhile .. | switch .. | case _ | endSwitch | fork _ | forkAgain _
  | endFork _ | partition .. | closePartition | arrow _ => true

namespace Reader

/-- The second state has the title, the lanes and the open text of the first one. -/
structure Keeps (r r' : Reader) : Prop where
  title : r'.title = r.title
  lanes : r'.lanes = r.lanes
  lane : r'.lane = r.lane
  text : r'.text = r.text

lemma Keeps.refl (r : Reader) : r.Keeps r :=
  ⟨rfl, rfl, rfl, rfl⟩

lemma keeps_addStep (r : Reader) (s : Step) : r.Keeps (r.addStep s) := by
  cases s <;> exact ⟨rfl, rfl, rfl, rfl⟩

lemma keeps_closeBlock (r : Reader) (change : OpenBlock → Option OpenBlock) :
    r.Keeps (r.closeBlock change) := by
  unfold closeBlock
  split
  · exact Keeps.refl r
  · split
    · exact Keeps.refl r
    · exact ⟨rfl, rfl, rfl, rfl⟩

lemma keeps_nextPart (r : Reader) (change : List Instruction → OpenBlock → Option OpenBlock) :
    r.Keeps (r.nextPart change) := by
  unfold nextPart
  split
  · exact Keeps.refl r
  · split
    · exact Keeps.refl r
    · exact ⟨rfl, rfl, rfl, rfl⟩

lemma keeps_apply (r : Reader) {l : Line} (hl : l.isInstruction = true) : r.Keeps (r.apply l) := by
  cases l with
  | title | lane | text => exact nomatch hl
  | step s => exact keeps_addStep r s
  | elseIf | otherwise | case | forkAgain => exact keeps_nextPart r _
  | endChoice | endWhile | repeatWhile | endSwitch | endFork | closePartition =>
    exact keeps_closeBlock r _
  | choice | whileLoop | repeatLoop | switch | fork | partition | arrow =>
    exact ⟨rfl, rfl, rfl, rfl⟩

end Reader

/-! ## The shapes of a drawing

Each instruction has shapes of its own, and the drawing of a diagram has these shapes for every
instruction of the tree, a shape for each lane, and one for the title. -/


open Sketch

/-! ### The shapes of an instruction -/

/-- The number of shapes that draw a step. -/
def Step.shapeCount : Step → Nat
  | action _ _ | start | kill | note _ => 1
  | stop | finish => 2
  | leave | arrow _ => 0

namespace Instruction

/-- The number of shapes that draw an instruction, those inside apart. -/
def shapeCount : Instruction → Nat
  | step _ s => s.shapeCount
  | choice _ _ first others last => if onlyLeaves first others last then 1 else 2 + others.length
  | loop _ l _ =>
    match l.test with
    | .before => 1
    | .after startLabel => 1 + startLabel.toList.length
  | switch .. => 2
  | fork .. => 2
  | partition .. => 1

/-- The number of shapes that draw instructions. -/
def countOf (is : List Instruction) : Nat :=
  (is.map shapeCount).sum

@[simp]
lemma countOf_nil : countOf [] = 0 := rfl

@[simp]
lemma countOf_cons (i : Instruction) (is : List Instruction) :
    countOf (i :: is) = i.shapeCount + countOf is := by
  simp [countOf]

@[simp]
lemma countOf_append (is is' : List Instruction) :
    countOf (is ++ is') = countOf is + countOf is' := by
  simp [countOf]

/-- Instructions that leave a loop are not drawn. -/
lemma countOf_walkAll_of_all_isLeave {is : List Instruction} (h : is.all isLeave = true) :
    countOf (walkAll is) = 0 := by
  rw [walkAll_of_all_isLeave h, countOf, List.sum_eq_zero]
  intro count hcount
  obtain ⟨i, hi, rfl⟩ := List.mem_map.1 hcount
  obtain ⟨n, rfl⟩ := exists_eq_of_isLeave (List.all_eq_true.1 h i hi)
  rfl

lemma countOf_walk_choice_of_onlyLeaves {n : Node} {c : Choice} {first last : List Instruction}
    {others : List (Branch Instruction)} (h : onlyLeaves first others last = true) :
    countOf (choice n c first others last).walk = 1 := by
  have hparts := h
  simp only [onlyLeaves, Bool.and_eq_true, List.isEmpty_iff] at hparts
  obtain ⟨⟨⟨rfl, rfl⟩, -⟩, hfirst⟩ := hparts
  simp [walk, walkAll, walkBranches, shapeCount, h, countOf_walkAll_of_all_isLeave hfirst]

end Instruction

/-! ### The shapes of the parts of a drawing -/

lemma addsShapes_drawAround (value : String) (style : Style) (cx y : Rat) (size : Size) :
    (drawAround value style cx y size).AddsShapes 1 :=
  addsShapes_shape _ _ _ _ _ _

lemma addsShapes_drawDiamond (label : String) (color : Option String) (cx y : Rat) :
    (drawDiamond label color cx y).AddsShapes 1 :=
  addsShapes_drawAround _ _ _ _ _

lemma addsShapes_drawMerge (cx y : Rat) (height : Nat) : (drawMerge cx y height).AddsShapes 1 :=
  addsShapes_drawAround _ _ _ _ _

lemma addsShapes_drawFlow (source target label color : Option String) (dashed : Bool) :
    (drawFlow source target label color dashed).AddsShapes 0 := by
  unfold drawFlow
  split
  · exact (addsShapes_connect _ _ _ _).returns
  · exact addsShapes_pure _

lemma addsShapes_drawPlain (source target label : Option String) :
    (drawPlain source target label).AddsShapes 0 :=
  addsShapes_drawFlow _ _ _ _ _

lemma addsShapes_drawBack (source target : String) (label : Option String) :
    (drawBack source target label).AddsShapes 0 :=
  (addsShapes_connect _ _ _ _).returns

/-- A note is drawn by its list. -/
lemma addsShapes_drawStep (cx y : Rat) {s : Step} (hs : ∀ n, s ≠ .note n) :
    (drawStep cx y s).AddsShapes s.shapeCount := by
  unfold drawStep
  cases s with
  | action | start | kill => exact (addsShapes_drawAround _ _ _ _ _).returns
  | stop | finish =>
    refine AddsShapes.bind (m := 1) (n := 1) (addsShapes_drawAround _ _ _ _ _) fun _ => ?_
    exact (addsShapes_drawAround _ _ _ _ _).returns
  | leave | arrow => exact addsShapes_pure _
  | note n => exact absurd rfl (hs n)

lemma addsShapes_join (c : Chain) (ends : Ends) (exitLabel : Option String) :
    (c.join ends exitLabel).AddsShapes 0 := by
  have hrest : (
      if ends.entry.isSome || ends.exit.isSome then
        pure { c with entry := c.entry.or ends.entry, pending := none, exit := ends.exit,
                      exitLabel := exitLabel }
      else pure { c with entry := c.entry.or ends.entry, pending := none } :
        Sketch Chain).AddsShapes 0 := by
    split <;> exact addsShapes_pure _
  unfold Chain.join
  dsimp only
  split
  · split
    · exact (addsShapes_drawFlow _ _ _ _ _).skip fun _ => hrest
    · exact (addsShapes_drawPlain _ _ _).skip fun _ => hrest
  · exact hrest

namespace Instruction

lemma addsShapes_joinBranch {β : Type} (ends : Ends) (source target : String)
    (label : Option String) {s : Sketch β} {n : Nat} (hs : s.AddsShapes n) :
    (do
      drawPlain source (ends.entry.or target) label
      if ends.entry.isSome then drawPlain ends.exit target none
      s : Sketch β).AddsShapes n := by
  refine (addsShapes_drawPlain _ _ _).skip fun _ => ?_
  dsimp only
  split
  · exact (addsShapes_drawPlain _ _ _).skip fun _ => hs
  · exact hs

-- The four lemmas go through an instruction as the four functions do.  In each case the shapes are
-- first written as a sum in the order in which they are drawn.
mutual

lemma addsShapes_draw (lanes : Keyed Rat) (cx y : Rat) :
    (i : Instruction) → (∀ n note, i ≠ step n (.note note)) →
      (draw lanes cx y i).AddsShapes (countOf i.walk)
  | step n s, hnote => by
    unfold draw
    rw [walk, countOf_cons, countOf_nil, Nat.add_zero]
    refine addsShapes_drawStep cx y fun note heq => ?_
    exact hnote n note (congrArg (step n) heq)
  | choice n c first others last, _ => by
    unfold draw
    split
    · next honly =>
      rw [countOf_walk_choice_of_onlyLeaves honly]
      exact (addsShapes_drawDiamond _ _ _ _).returns
    · next honly =>
      have hsum : countOf (choice n c first others last).walk =
          1 + (1 + (countOf (walkAll first) +
            ((others.length + countOf (walkBranches others)) + countOf (walkAll last)))) := by
        simp only [walk, countOf_cons, countOf_append, shapeCount, if_neg honly]
        omega
      rw [hsum]
      refine (addsShapes_drawDiamond _ _ _ _).bind fun diamond => ?_
      refine (addsShapes_drawMerge _ _ _).bind fun merge => ?_
      refine (addsShapes_drawAll lanes _ _ first).bind fun ends => ?_
      refine addsShapes_joinBranch ends diamond merge _ ?_
      refine (addsShapes_drawOthers lanes _ _ _ _ others).bind fun ⟨lastDiamond, left⟩ => ?_
      refine (addsShapes_drawAll lanes _ _ last).last fun ends => ?_
      exact addsShapes_joinBranch ends lastDiamond merge _ (addsShapes_pure _)
  | loop n l body, _ => by
    unfold draw
    rw [walk, countOf_cons, shapeCount]
    cases l.test with
    | before =>
      refine (addsShapes_drawDiamond _ _ _ _).bind fun diamond => ?_
      refine (addsShapes_drawAll lanes _ _ body).last fun ends => ?_
      refine (addsShapes_drawPlain _ _ _).skip fun _ => ?_
      dsimp only
      split
      · exact (addsShapes_drawBack _ _ _).returns
      · exact addsShapes_pure _
    | after startLabel =>
      have hbody : ∀ (start : Option String) (inner : Rat), (do
          let ends ← drawAll lanes cx { y := inner, lastY := inner } body
          drawPlain start ends.entry none
          let diamond ← drawDiamond l.condition l.color cx
            (inner + (sizeAll body).height + Size.rowGap)
          drawPlain ends.exit diamond none
          let top := (start.or ends.entry).getD diamond
          drawBack diamond top l.againLabel
          pure ⟨some top, some diamond⟩ : Sketch Ends).AddsShapes
            (countOf (walkAll body) + 1) := by
        intro start inner
        refine (addsShapes_drawAll lanes _ _ body).bind fun ends => ?_
        refine (addsShapes_drawPlain _ _ _).skip fun _ => ?_
        refine (addsShapes_drawDiamond _ _ _ _).last fun diamond => ?_
        refine (addsShapes_drawPlain _ _ _).skip fun _ => ?_
        exact (addsShapes_drawBack _ _ _).returns
      cases startLabel with
      | none =>
        have hsum : 1 + (none : Option String).toList.length + countOf (walkAll body) =
            countOf (walkAll body) + 1 := Nat.add_comm 1 _
        rw [hsum]
        exact hbody none y
      | some label =>
        have hsum : 1 + (some label).toList.length + countOf (walkAll body) =
            1 + (countOf (walkAll body) + 1) := by
          simp only [Option.toList_some, List.length_singleton]
          omega
        rw [hsum]
        exact (addsShapes_drawAround _ _ _ _ _).bind fun id => hbody (some id) _
  | switch n condition color cases, _ => by
    unfold draw
    have hsum : countOf (switch n condition color cases).walk =
        1 + (1 + countOf (walkBranches cases)) := by
      rw [walk, countOf_cons, shapeCount, ← Nat.add_assoc]
    rw [hsum]
    refine (addsShapes_drawDiamond _ _ _ _).bind fun diamond => ?_
    refine (addsShapes_drawMerge _ _ _).bind fun merge => ?_
    exact (addsShapes_drawBranches lanes _ _ _ _ cases).returns
  | fork n isSplit branches, _ => by
    unfold draw
    have hsum : countOf (fork n isSplit branches).walk =
        1 + (1 + countOf (walkBranches branches)) := by
      rw [walk, countOf_cons, shapeCount, ← Nat.add_assoc]
    rw [hsum]
    refine (addsShapes_shape _ _ _ _ _ _).bind fun top => ?_
    refine (addsShapes_shape _ _ _ _ _ _).bind fun bottom => ?_
    exact (addsShapes_drawBranches lanes _ _ _ _ branches).returns
  | partition n name color body, _ => by
    unfold draw
    rw [walk, countOf_cons, shapeCount]
    refine (addsShapes_drawAround _ _ _ _ _).bind fun frame => ?_
    refine (addsShapes_drawAll lanes _ _ body).last fun ends => ?_
    split <;> exact addsShapes_pure _

lemma addsShapes_drawAll (lanes : Keyed Rat) (cx : Rat) (c : Chain) :
    (is : List Instruction) → (drawAll lanes cx c is).AddsShapes (countOf (walkAll is))
  | [] => by
    unfold drawAll
    exact addsShapes_pure _
  | i :: rest => by
    unfold drawAll
    rw [walkAll, countOf_append]
    split
    · next heq => cases heq
    · next n a _ heq =>
      obtain ⟨rfl, rfl⟩ := List.cons.inj heq
      have hnothing : countOf (step n (.arrow a)).walk = 0 := rfl
      rw [hnothing, Nat.zero_add]
      exact addsShapes_drawAll lanes cx _ rest
    · next n note _ heq =>
      obtain ⟨rfl, rfl⟩ := List.cons.inj heq
      have hnote : (drawNote (centerOf lanes n cx)
          (Fraction.larger c.lastY (if note.isLeft then c.leftEnd else c.rightEnd)) note).AddsShapes
            (countOf (step n (.note note)).walk) :=
        (addsShapes_drawAround _ _ _ _ _).returns
      exact hnote.bind fun _ => addsShapes_drawAll lanes cx _ rest
    · next hnote heq =>
      obtain ⟨rfl, rfl⟩ := List.cons.inj heq
      refine (addsShapes_draw lanes _ _ i fun n note hi => hnote n note hi).bind fun ends => ?_
      refine (addsShapes_join _ _ _).skip fun c => ?_
      exact addsShapes_drawAll lanes cx _ rest

lemma addsShapes_drawOthers (lanes : Keyed Rat) (y left : Rat) (merge before : String) :
    (others : List (Branch Instruction)) →
      (drawOthers lanes y merge before left others).AddsShapes
        (others.length + countOf (walkBranches others))
  | [] => by
    unfold drawOthers
    exact addsShapes_pure _
  | ⟨condition, label, body⟩ :: rest => by
    unfold drawOthers
    have hsum : (⟨condition, label, body⟩ :: rest).length +
        countOf (walkBranches (⟨condition, label, body⟩ :: rest)) =
          1 + (countOf (walkAll body) + (rest.length + countOf (walkBranches rest))) := by
      rw [walkBranches, countOf_append, List.length_cons]
      omega
    rw [hsum]
    refine (addsShapes_drawDiamond _ _ _ _).bind fun diamond => ?_
    refine (addsShapes_drawPlain _ _ _).skip fun _ => ?_
    refine (addsShapes_drawAll lanes _ _ body).bind fun ends => ?_
    refine addsShapes_joinBranch ends diamond merge _ ?_
    exact addsShapes_drawOthers lanes y _ merge diamond rest

lemma addsShapes_drawBranches (lanes : Keyed Rat) (y left : Rat) (source target : String) :
    (branches : List (Branch Instruction)) →
      (drawBranches lanes y source target left branches).AddsShapes
        (countOf (walkBranches branches))
  | [] => by
    unfold drawBranches
    exact addsShapes_pure _
  | ⟨condition, _, body⟩ :: rest => by
    unfold drawBranches
    rw [walkBranches, countOf_append]
    refine (addsShapes_drawAll lanes _ _ body).bind fun ends => ?_
    refine (addsShapes_drawPlain _ _ _).skip fun _ => ?_
    refine (addsShapes_drawPlain _ _ _).skip fun _ => ?_
    exact addsShapes_drawBranches lanes y _ source target rest

end

end Instruction

/-! ### Lanes -/

/-- Each lane stands in the table under its name. -/
def Lane.Named (lanes : Keyed Lane) : Prop :=
  ∀ name l, lanes.get? name = some l → l.name = name

namespace Reader

lemma named_openLane {r : Reader} (hr : Lane.Named r.lanes) (l : Lane) :
    Lane.Named (r.openLane l).lanes := by
  unfold openLane
  dsimp only
  split
  · exact hr
  · intro name l' hl'
    rw [Keyed.get?_insert] at hl'
    split at hl'
    · next hname =>
      obtain rfl := Option.some.inj hl'
      exact hname.symm
    · exact hr name l' hl'

lemma named_apply {r : Reader} (hr : Lane.Named r.lanes) (line : Line) :
    Lane.Named (r.apply line).lanes := by
  by_cases hline : line.isInstruction = true
  · rwa [(keeps_apply r hline).lanes]
  · cases line with
    | lane l => exact named_openLane hr l
    | title | text => exact hr
    | _ => exact absurd rfl hline

lemma named_step {r : Reader} (hr : Lane.Named r.lanes) (line : SourceLine) :
    Lane.Named (r.step line).lanes := by
  unfold step
  split
  · split
    · exact (keeps_addStep _ _).lanes.symm ▸ hr
    · exact hr
  · unfold readLine
    split
    · exact hr
    · split
      · exact named_apply hr _
      · exact hr

lemma named_foldl {r : Reader} (hr : Lane.Named r.lanes) (lines : List SourceLine) :
    Lane.Named (lines.foldl step r).lanes := by
  induction lines generalizing r with
  | nil => exact hr
  | cons line rest ih => exact ih (named_step hr line)

end Reader

namespace Diagram

lemma named_read (text : String) : Lane.Named (read text).lanes :=
  Reader.named_foldl (r := {}) (fun _ _ h => nomatch h) _

lemma mem_keys_placeLanes (d : Diagram) {name : String} (x : Nat) (names : List String)
    (places : Keyed (Nat × Nat)) (h : name ∈ places.keys ∨ name ∈ names) :
    name ∈ (d.placeLanes x names places).keys := by
  induction names generalizing x places with
  | nil => exact h.resolve_right List.not_mem_nil
  | cons first rest ih =>
    refine ih _ _ ?_
    rw [Keyed.mem_keys_insert]
    rcases h with h | h
    · exact .inl (.inl h)
    · exact (List.mem_cons.1 h).imp_left .inr

lemma mem_laneNames {d : Diagram} {name : String} (h : name ∈ d.lanes.keys) :
    name ∈ d.laneNames := by
  unfold laneNames
  split
  · exact List.mem_cons_of_mem _ h
  · exact h

/-- Every lane has a place. -/
lemma exists_place {d : Diagram} (hd : Lane.Named d.lanes) {l : Lane} (hl : l ∈ d.lanes.values) :
    ∃ place, (d.placeLanes margin d.laneNames Keyed.empty).get? l.name = some place := by
  obtain ⟨⟨name, l'⟩, hentry, rfl⟩ := List.mem_map.1 hl
  rw [hd name l' (Keyed.get?_eq_some_iff.2 hentry), ← Keyed.mem_keys_iff]
  refine mem_keys_placeLanes d _ _ _ (.inr (mem_laneNames ?_))
  exact List.mem_map_of_mem hentry

lemma addsShapes_drawLanes (places : Keyed (Nat × Nat)) (y height : Nat) {ls : List Lane}
    (h : ∀ l ∈ ls, ∃ place, places.get? l.name = some place) :
    (drawLanes places y height ls).AddsShapes ls.length := by
  induction ls with
  | nil => exact addsShapes_pure _
  | cons l rest ih =>
    obtain ⟨⟨place, hplace⟩, hrest⟩ := List.forall_mem_cons.1 h
    unfold drawLanes
    rw [hplace, List.length_cons, Nat.add_comm]
    exact (addsShapes_shape _ _ _ _ _ _).bind fun _ => ih hrest

/-- The shapes of the lanes and the instructions. -/
lemma addsShapes_drawBody {d : Diagram} (hd : Lane.Named d.lanes) (top : Nat) (size : Size) : (
    if d.lanes.keys.isEmpty then do
      let _ ← Instruction.drawAll Keyed.empty (margin + size.width / 2)
        { y := top, lastY := top } d.instructions
    else do
      let places := d.placeLanes margin d.laneNames Keyed.empty
      let centers : Keyed Rat := places.map fun _ place => place.1 + place.2 / 2
      drawLanes places (top - margin) (size.height + laneHeader + margin * 2) d.lanes.values
      let first := (d.laneNames.head?.bind centers.get?).getD 0
      let y : Rat := top + laneHeader
      let _ ← Instruction.drawAll centers first { y := y, lastY := y } d.instructions :
    Sketch Unit).AddsShapes
      (d.lanes.keys.length + Instruction.countOf (Instruction.walkAll d.instructions)) := by
  split
  · next hempty =>
    rw [List.isEmpty_iff] at hempty
    rw [hempty, List.length_nil, Nat.zero_add]
    exact (Instruction.addsShapes_drawAll _ _ _ _).returns
  · have hlength : d.lanes.keys.length = d.lanes.values.length := by
      rw [Keyed.keys, Keyed.values, List.length_map, List.length_map]
    rw [hlength]
    refine (addsShapes_drawLanes _ _ _ fun l hl => exists_place hd hl).bind fun _ => ?_
    exact (Instruction.addsShapes_drawAll _ _ _ _).returns

lemma addsShapes_sketch {d : Diagram} (hd : Lane.Named d.lanes) :
    d.sketch.AddsShapes ((d.title.filter fun t => !t.isEmpty).toList.length +
      (d.lanes.keys.length + Instruction.countOf (Instruction.walkAll d.instructions))) := by
  unfold sketch
  cases d.title.filter fun t => !t.isEmpty with
  | none =>
    rw [Option.toList_none, List.length_nil, Nat.zero_add]
    exact addsShapes_drawBody hd _ _
  | some t => exact (addsShapes_shape _ _ _ _ _ _).bind fun _ => addsShapes_drawBody hd _ _

/-- The drawing of a text has a shape for the title, if there is one that is not empty, a shape for
each lane, and the shapes of each instruction of the tree. -/
theorem countP_draw_read (text parent : String) :
    ((read text).draw parent).countP Cell.vertex =
      (if ((read text).title.filter fun t => !t.isEmpty).isSome then 1 else 0) +
        (read text).lanes.keys.length +
        ((Instruction.walkAll (read text).instructions).map Instruction.shapeCount).sum := by
  have hcount := (addsShapes_sketch (named_read text)).countP_cells parent
  rw [← Nat.add_assoc] at hcount
  refine hcount.trans ?_
  cases (read text).title.filter fun t => !t.isEmpty <;> rfl

end Diagram
end Activity
end UmlDraw
