/-
# Drawing an activity diagram

Instructions are drawn from top to bottom around a center line, with a connector from each to the
next.  What an instruction has drawn is known to its list by two cells only: where the flow comes in
and where it goes out.
-/
import UmlDraw.Activity.Size
import UmlDraw.Activity.Style
import UmlDraw.Drawing.Canvas
import UmlDraw.Number.Fraction

namespace UmlDraw
namespace Activity

/-- The cells where the flow comes in and goes out, if there are such cells. -/
structure Ends where
  entry : Option String := none
  exit : Option String := none

/-- The state of drawing a list of instructions. -/
structure Chain where
  /-- Where the flow comes into the list. -/
  entry : Option String := none
  /-- Where the flow goes on. -/
  exit : Option String := none
  /-- The label of the way out of the instruction before. -/
  exitLabel : Option String := none
  /-- The connector line before the next instruction. -/
  pending : Option Arrow := none
  /-- Where the next instruction starts. -/
  y : Rat
  /-- Where the instruction before starts. -/
  lastY : Rat
  /-- The end of the last note on the left. -/
  leftEnd : Rat := 0
  /-- The end of the last note on the right. -/
  rightEnd : Rat := 0

/-- Draws a shape around a center line. -/
def drawAround (value : String) (style : Style) (cx y : Rat) (size : Size) : Sketch String :=
  Sketch.shape value style (.ratio (cx - size.width / 2)) (.ratio y) (.int size.width)
    (.int size.height)

/-- Draws a decision around a center line. -/
def drawDiamond (label : String) (color : Option String) (cx y : Rat) : Sketch String :=
  drawAround label (diamondStyle color) cx y ⟨Size.diamond, Size.diamond⟩

/-- Draws the place where branches meet, at the bottom of an instruction of the given height. -/
def drawMerge (cx y : Rat) (height : Nat) : Sketch String :=
  drawAround "" mergeStyle cx (y + height - Size.diamond / 2) ⟨Size.diamond / 2, Size.diamond / 2⟩

/-- Draws a connector, if it has both ends. -/
def drawFlow (source target label : Option String) (color : Option String) (dashed : Bool) :
    Sketch Unit := do
  match source, target with
  | some source, some target =>
    let _ ← Sketch.connect (label.getD "") (flowStyle color dashed) source target
  | _, _ => pure ()

/-- Draws a plain connector, if it has both ends. -/
def drawPlain (source target label : Option String) : Sketch Unit :=
  drawFlow source target label none false

/-- Draws a connector back to the start of a loop. -/
def drawBack (source target : String) (label : Option String) : Sketch Unit := do
  let _ ← Sketch.connect (label.getD "") loopBackStyle source target

/-- The center line of an instruction: that of its lane, if it has one, else the given one. -/
def centerOf (lanes : Keyed Rat) (n : Node) (cx : Rat) : Rat :=
  match n.lane with
  | some name => if name.isEmpty then cx else (lanes.get? name).getD cx
  | none => cx

/-- Draws a step that is no note. -/
def drawStep (cx y : Rat) (s : Step) : Sketch Ends := do
  let size := Size.ofStep s
  match s with
  | .action label color =>
    let id ← drawAround label (actionStyle color) cx y size
    pure ⟨some id, some id⟩
  | .start =>
    let id ← drawAround "" startStyle cx y size
    pure ⟨some id, some id⟩
  | .stop | .finish =>
    let id ← drawAround "" finalStyle cx y size
    let _ ← drawAround "" startStyle cx (y + 7) ⟨16, 16⟩
    pure ⟨some id, some id⟩
  | .kill =>
    let id ← drawAround "" killStyle cx y size
    pure ⟨some id, none⟩
  | _ => pure {}

/-- Draws a note beside a center line. -/
def drawNote (cx y : Rat) (n : Note) : Sketch Unit := do
  let center := if n.isLeft then cx - 160 else cx + 160
  let _ ← drawAround n.text (noteStyle n.color) center y (Size.ofStep (.note n))

/-- Joins an instruction to the one before it and goes on behind it. -/
def Chain.join (c : Chain) (ends : Ends) (exitLabel : Option String) : Sketch Chain := do
  match c.exit, ends.entry with
  | some source, some target =>
    match c.pending with
    | some a => drawFlow source target (a.label.or c.exitLabel) a.color a.dashed
    | none => drawPlain source target c.exitLabel
  | _, _ => pure ()
  let c := { c with entry := c.entry.or ends.entry, pending := none }
  if ends.entry.isSome || ends.exit.isSome then
    pure { c with exit := ends.exit, exitLabel := exitLabel }
  else pure c

namespace Instruction

/-- The label of the way out of an instruction. -/
def exitLabel : Instruction → Option String
  | loop _ l _ => l.exitLabel
  | _ => none

mutual

/-- Draws an instruction that is no note and no connector line. -/
def draw (lanes : Keyed Rat) (cx y : Rat) : Instruction → Sketch Ends
  | step _ s => drawStep cx y s
  | i@(choice _ c first others last) => do
    if onlyLeaves first others last then
      let diamond ← drawDiamond c.condition c.color cx y
      pure ⟨some diamond, some diamond⟩
    else
      let inner := y + Size.diamond + Size.rowGap
      let width := max (sizeAll first).width Size.diamond
      let left : Rat := cx - (size i).width / 2
      let center := left + width / 2
      let diamond ← drawDiamond c.condition c.color (if others.isEmpty then cx else center) y
      let merge ← drawMerge cx y (size i).height
      let ends ← drawAll lanes center { y := inner, lastY := inner } first
      drawPlain diamond (ends.entry.or merge) c.thenLabel
      if ends.entry.isSome then drawPlain ends.exit merge none
      let (lastDiamond, left) ←
        drawOthers lanes y merge diamond (left + width + Size.columnGap) others
      let width := max (sizeAll last).width Size.diamond
      let ends ← drawAll lanes (left + width / 2) { y := inner, lastY := inner } last
      drawPlain lastDiamond (ends.entry.or merge) c.elseLabel
      if ends.entry.isSome then drawPlain ends.exit merge none
      pure ⟨some diamond, some merge⟩
  | loop _ l body => do
    match l.test with
    | .before =>
      let diamond ← drawDiamond l.condition l.color cx y
      let inner := y + Size.diamond + Size.rowGap
      let ends ← drawAll lanes cx { y := inner, lastY := inner } body
      drawPlain diamond ends.entry l.againLabel
      match ends.exit with
      | some exit => drawBack exit diamond none
      | none => pure ()
      pure ⟨some diamond, some diamond⟩
    | .after startLabel =>
      let (start, inner) ←
        match startLabel with
        | some label => do
          let size := Size.box label
          let id ← drawAround label (actionStyle none) cx y size
          pure (some id, y + size.height + Size.rowGap)
        | none => pure (none, y)
      let ends ← drawAll lanes cx { y := inner, lastY := inner } body
      drawPlain start ends.entry none
      let diamond ← drawDiamond l.condition l.color cx
        (inner + (sizeAll body).height + Size.rowGap)
      drawPlain ends.exit diamond none
      let top := (start.or ends.entry).getD diamond
      drawBack diamond top l.againLabel
      pure ⟨some top, some diamond⟩
  | i@(switch _ condition color cases) => do
    let diamond ← drawDiamond condition color cx y
    let merge ← drawMerge cx y (size i).height
    drawBranches lanes (y + Size.diamond + Size.rowGap) diamond merge
      (cx - (size i).width / 2) cases
    pure ⟨some diamond, some merge⟩
  | i@(fork _ _ branches) => do
    let width : Rat :=
      Fraction.larger Size.barWidth
        (Size.spread (Size.columns Size.boxWidth (branchSizes branches)) * 7 / 10)
    let drawBar (y : Rat) : Sketch String :=
      Sketch.shape "" barStyle (.ratio (cx - width / 2)) (.ratio y) (.ratio width) (.int Size.bar)
    let top ← drawBar y
    let bottom ← drawBar (y + (size i).height - Size.bar)
    drawBranches lanes (y + Size.bar + Size.rowGap) top bottom (cx - (size i).width / 2) branches
    pure ⟨some top, some bottom⟩
  | i@(partition _ name color body) => do
    let frame ← drawAround name (partitionStyle color) cx y (size i)
    let inner := y + Size.partitionHeader
    let ends ← drawAll lanes cx { y := inner, lastY := inner } body
    if ends.entry.isNone && ends.exit.isNone then pure ⟨some frame, some frame⟩ else pure ends

/-- Draws the instructions of a list, from a given state on. -/
def drawAll (lanes : Keyed Rat) (cx : Rat) (c : Chain) : List Instruction → Sketch Ends
  | [] => pure ⟨c.entry, c.exit⟩
  | .step _ (.arrow a) :: rest => drawAll lanes cx { c with pending := some a } rest
  | i@(.step n (.note note)) :: rest => do
    let y := Fraction.larger c.lastY (if note.isLeft then c.leftEnd else c.rightEnd)
    drawNote (centerOf lanes n cx) y note
    let stop := y + (size i).height + 4
    let c := if note.isLeft then { c with leftEnd := stop } else { c with rightEnd := stop }
    drawAll lanes cx { c with pending := none } rest
  | i :: rest => do
    let ends ← draw lanes (centerOf lanes i.node cx) c.y i
    let c ← c.join ends i.exitLabel
    let c :=
      if i.isAside then c
      else { c with y := c.y + (size i).height + Size.rowGap, lastY := c.y }
    drawAll lanes cx c rest

/-- Draws the further branches of a decision, each with a decision of its own.  The results are
the last decision and the left side of the next column. -/
def drawOthers (lanes : Keyed Rat) (y : Rat) (merge before : String) (left : Rat) :
    List (Branch Instruction) → Sketch (String × Rat)
  | [] => pure (before, left)
  | ⟨condition, label, body⟩ :: rest => do
    let width := max (sizeAll body).width Size.diamond
    let center := left + width / 2
    let inner := y + Size.diamond + Size.rowGap
    let diamond ← drawDiamond condition none center y
    drawPlain before diamond none
    let ends ← drawAll lanes center { y := inner, lastY := inner } body
    drawPlain diamond (ends.entry.or merge) (label.getD "yes")
    if ends.entry.isSome then drawPlain ends.exit merge none
    drawOthers lanes y merge diamond (left + width + Size.columnGap) rest

/-- Draws branches side by side between two cells. -/
def drawBranches (lanes : Keyed Rat) (y : Rat) (source target : String) (left : Rat) :
    List (Branch Instruction) → Sketch Unit
  | [] => pure ()
  | ⟨condition, _, body⟩ :: rest => do
    let width := max (sizeAll body).width Size.boxWidth
    let ends ← drawAll lanes (left + width / 2) { y := y, lastY := y } body
    drawPlain source ends.entry condition
    drawPlain ends.exit target none
    drawBranches lanes y source target (left + width + Size.columnGap) rest

end

end Instruction

namespace Diagram

/-- The room around a drawing. -/
def margin : Nat := 40

/-- The height of the head of a lane. -/
def laneHeader : Nat := 30

/-- The lane of the instructions outside of all lanes. -/
def outside : String := "__default__"

/-- The names of the lanes that take room. -/
def laneNames (d : Diagram) : List String :=
  if d.instructions.any fun i => i.node.lane.isNone then outside :: d.lanes.keys else d.lanes.keys

/-- The width of a lane: enough for each of its instructions. -/
def laneWidth (d : Diagram) (name : String) : Nat :=
  let inLane (i : Instruction) : Bool :=
    !i.isAside && (i.node.lane.filter fun n => !n.isEmpty).getD outside == name
  (((Instruction.walkAll d.instructions).filter inLane).map fun i => i.size.width).foldl
    (fun w w' => max w (w' + Size.partitionMargin * 2)) 200

/-- The left side and the width of each lane, from a given left side on. -/
def placeLanes (d : Diagram) : Nat → List String → Keyed (Nat × Nat) → Keyed (Nat × Nat)
  | _, [], places => places
  | x, name :: rest, places =>
    placeLanes d (x + d.laneWidth name) rest (places.insert name (x, d.laneWidth name))

/-- Draws the lanes. -/
def drawLanes (places : Keyed (Nat × Nat)) (y height : Nat) : List Lane → Sketch Unit
  | [] => pure ()
  | l :: rest => do
    match places.get? l.name with
    | some (x, width) =>
      let value := (l.label.filter fun s => !s.isEmpty).getD l.name
      let _ ← Sketch.shape value (laneStyle l.color) (.int x) (.int y) (.int width) (.int height)
    | none => pure ()
    drawLanes places y height rest

/-- Draws an activity diagram. -/
def sketch (d : Diagram) : Sketch Unit := do
  let title := d.title.filter fun t => !t.isEmpty
  match title with
  | some t =>
    let _ ← Sketch.shape t titleStyle (.int margin) 5 (.int (max Size.boxWidth (t.length * 9))) 25
  | none => pure ()
  let top := if title.isSome then margin + 30 else margin
  let size := Instruction.sizeAll d.instructions
  if d.lanes.keys.isEmpty then
    let _ ← Instruction.drawAll Keyed.empty (margin + size.width / 2) { y := top, lastY := top }
      d.instructions
  else
    let places := d.placeLanes margin d.laneNames Keyed.empty
    let centers : Keyed Rat := places.map fun _ (x, width) => x + width / 2
    drawLanes places (top - margin) (size.height + laneHeader + margin * 2) d.lanes.values
    let first := (d.laneNames.head?.bind centers.get?).getD 0
    let y : Rat := top + laneHeader
    let _ ← Instruction.drawAll centers first { y := y, lastY := y } d.instructions

/-- The cells that draw an activity diagram in the given parent. -/
def draw (d : Diagram) (parent : String) : List Cell :=
  d.sketch.cells parent

end Diagram
end Activity
end UmlDraw
