/-
# Drawing timing diagrams

A timing diagram is drawn from marks, from back to front: highlights, lanes, waveforms, notes,
constraints, messages, the time axis, and the labels of the lanes.  Drawing fails only if a time or
a value is too large.
-/
import UmlDraw.Relation.Drawing
import UmlDraw.Timing.Waveform

namespace UmlDraw
namespace Timing

/-- The lane of a player. -/
def laneOf (lanes : List Lane) (code : String) : Option Lane :=
  lanes.find? fun l => l.player.code == code

/-- The mark of a highlight. -/
def highlightMark (s : Scale) (top bottom : Rat) (h : Highlight) : Except NumberError Mark := do
  let a ← s.place h.start
  let b ← s.place h.stop
  let (left, right) := if b < a then (b, a) else (a, b)
  pure (.shape (Label.html h.caption) (highlightStyle h.color) left (.ratio (top - 4))
    (Number.max (right - left) 2) (.ratio (Fraction.larger (bottom - Lane.gap - top + 8) 1)))

/-- The mark of a lane. -/
def laneMark (s : Scale) (l : Lane) : Mark :=
  .shape "" laneStyle laneLeft (.ratio l.y) s.width (.ratio l.height)

/-- The marks of notes, each behind the notes before it at its lane; the first list holds the notes
before the second. -/
def noteMarks (s : Scale) (lanes : List Lane) (before : List PlayerNote) :
    List PlayerNote → List Mark
  | [] => []
  | n :: rest =>
    match laneOf lanes n.player with
    | none => noteMarks s lanes before rest
    | some l =>
      let height : Rat := Relation.noteHeight n.text
      let index := before.countP fun o => o.player == n.player
      let taken : Int := index * 150
      .shape (Label.html n.text) (Relation.noteStyle n.color) (s.right + 10 + .int taken)
          (.ratio (if n.atTop then l.y else l.bottom - height)) (.ratio Relation.noteWidth)
          (.ratio height) ::
        noteMarks s lanes (n :: before) rest

/-- The marks of constraints: below the lane of the player, or one below the other from the given
place on.  The second result is the place below the last one. -/
def constraintMarks (s : Scale) (lanes : List Lane) (y : Rat) :
    List Constraint → Except NumberError (List Mark × Rat)
  | [] => pure ([], y)
  | c :: rest => do
    let start ← s.place c.start
    let stop ← s.place c.stop
    let lane := c.player.bind (laneOf lanes)
    let level :=
      match lane with
      | some l => l.bottom + 10
      | none => y
    let (marks, bottom) ← constraintMarks s lanes (if lane.isSome then y else y + 25) rest
    let mark : Mark :=
      .line (Label.html c.label) constraintStyle (pointAt start level) [] (pointAt stop level)
    pure (mark :: marks, bottom)

/-- The mark of a message between lanes. -/
def messageMark (s : Scale) (lanes : List Lane) (m : Message) :
    Except NumberError (List Mark) := do
  match laneOf lanes m.source, laneOf lanes m.target with
  | some source, some target =>
    let start ← s.place m.sourceTime
    let stop ← s.place m.targetTime
    pure [.line (Label.html m.label) messageStyle (pointAt start source.center) []
      (pointAt stop target.center)]
  | _, _ => pure []

/-- The marks of an instant on the axis: a tick and the time below it. -/
def tickMarks (s : Scale) (y : Rat) (t : Number) : Except NumberError (List Mark) := do
  let x ← s.place t
  let text ← Number.Checked.timeText t
  pure [.line "" axisStyle (pointAt x y) [] (pointAt x (y + 8)),
    .shape text timeStyle (x - 15) (.ratio (y + 10)) 30 14]

/-- The marks of the time axis. -/
def axisMarks (s : Scale) (y : Rat) : Except NumberError (List Mark) := do
  let ticks ← s.times.mapM (tickMarks s y)
  pure (.line "" axisStyle (pointAt laneLeft y) [] (pointAt s.right y) :: ticks.flatten)

/-- The mark of the label of a lane. -/
def labelMark (l : Lane) : Mark :=
  let text :=
    match l.player.stereotype with
    | some s => "«" ++ s ++ "»\n" ++ l.player.display
    | none => l.player.display
  .shape (Label.html text) playerStyle 20 (.ratio l.y) 110 (.ratio l.height)

namespace Diagram

/-- The title, unless it is empty. -/
def shownTitle (d : Diagram) : Option String :=
  d.title.filter fun t => !t.isEmpty

/-- The mark of the title. -/
def titleMarks (d : Diagram) (s : Scale) : List Mark :=
  match d.shownTitle with
  | some t => [.shape t titleStyle 20 10 (s.right - 20) 30]
  | none => []

/-- The marks of a diagram. -/
def marks (d : Diagram) : Except NumberError (List Mark) := do
  let s ← Scale.ofDiagram d
  let top : Rat := if d.shownTitle.isSome then 50 else 20
  let (lanes, bottom) := Lane.stack d.compact top d.players.values
  let highlights ← d.highlights.mapM (highlightMark s top bottom)
  let waveforms ← lanes.mapM fun l => l.waveform s
  let notes := noteMarks s lanes [] d.notes
  let (constraints, below) ← constraintMarks s lanes bottom d.constraints
  let messages ← d.messages.mapM (messageMark s lanes)
  let axis ← if d.hideAxis then pure [] else axisMarks s (below + 10)
  pure (d.titleMarks s ++ highlights ++ lanes.map (laneMark s) ++ waveforms.flatten ++ notes ++
    constraints ++ messages.flatten ++ axis ++ lanes.map labelMark)

/-- The cells that draw a diagram in the given parent. -/
def draw (d : Diagram) (parent : String) : Except NumberError (List Cell) := do
  let marks ← d.marks
  pure ((Mark.drawAll marks).cells parent)

end Diagram
end Timing
end UmlDraw
