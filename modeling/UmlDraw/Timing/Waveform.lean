/-
# Waveforms

How the states of a player are drawn in its lane: as levels of a line, as bars, as the edges of a
clock, or as a curve.
-/
import UmlDraw.Drawing.Canvas
import UmlDraw.Number.Reading
import UmlDraw.Source.Label
import UmlDraw.Timing.Scale
import UmlDraw.Timing.Style

namespace UmlDraw
namespace Timing

open Number (Checked.add Checked.sub Checked.mul Checked.div Checked.mod Checked.floorDiv)

/-- A point of a waveform. -/
def pointAt (x : Number) (y : Rat) : Point :=
  ⟨x, .ratio y⟩

/-- A change with the sides of the part of the lane in which its state holds. -/
structure Segment where
  change : StateChange
  left : Number
  right : Number

namespace Segment

/-- The segments of changes; the last one ends at the right side of the lane. -/
def ofChanges (s : Scale) : List StateChange → Except NumberError (List Segment)
  | [] => pure []
  | c :: rest => do
    let left ← s.place c.time
    let segments ← ofChanges s rest
    pure (⟨c, left, (segments.head?.map Segment.left).getD s.right⟩ :: segments)

/-- The state is not to be seen. -/
def isHidden (g : Segment) : Bool :=
  ["\x7b-\x7d", "\x7bhidden\x7d", "\x7b...\x7d"].contains g.change.state

/-- The width. -/
def width (g : Segment) : Number :=
  g.right - g.left

end Segment

namespace Lane

/-- The place of a state among the levels of a lane; an unknown state has the lowest level. -/
def levelOf (l : Lane) (state : String) : Rat :=
  let states := if l.player.states.isEmpty then ["?"] else l.player.states
  let step := (l.height - 10) / (max 2 states.length : Nat)
  let index := if states.contains state then states.idxOf state else states.length - 1
  l.y + 5 + step * index + step / 2

/-- The label of a change, with its comment in the given form. -/
def labelOf (p : Player) (c : StateChange) (comment : String → String) : String :=
  p.stateLabel c.state ++ ((c.comment.map comment).getD "")

/-- Levels with labels.  `previous` is the level before, if a state was to be seen there. -/
def robust (l : Lane) (previous : Option Rat) : List Segment → List Mark
  | [] => []
  | g :: rest =>
    if g.isHidden then robust l none rest
    else
      let y := l.levelOf g.change.state
      let style := waveStyle (g.change.color.or l.player.color)
      let step :=
        match previous with
        | some before =>
          if before = y then [] else Mark.polyline style [pointAt g.left before, pointAt g.left y]
        | none => []
      let label :=
        if Number.lt 20 g.width then
          [Mark.shape
            (Label.html (labelOf l.player g.change fun comment => " (" ++ comment ++ ")"))
            stateStyle (g.left + 2) (.ratio (y - 16)) (g.width - 4) 14]
        else []
      step ++ Mark.polyline style [pointAt g.left y, pointAt g.right y] ++ label ++
        robust l (some y) rest

/-- The bar of a segment. -/
def bar (l : Lane) (g : Segment) : List Mark :=
  if g.right ≤ g.left then []
  else if g.isHidden then
    Mark.polyline (waveStyle (some "#999999")) [pointAt g.left l.center, pointAt g.right l.center]
  else
    [Mark.shape (Label.html (labelOf l.player g.change fun comment => "<br>" ++ comment))
      (barStyle l.player g.change.color) g.left (.ratio (l.y + 3)) g.width (.ratio (l.height - 6))]

/-- The level of a state that is high or low. -/
def binaryLevel (l : Lane) (state : String) : Rat :=
  if ["high", "1", "true", "on"].contains (Text.small state) then l.high else l.low

/-- The points of a line that is high or low.  `previous` is the level before. -/
def binary (l : Lane) (previous : Option Rat) : List Segment → List Point
  | [] => []
  | g :: rest =>
    let y := l.binaryLevel g.change.state
    (if previous = some y then [] else [pointAt g.left y]) ++ pointAt g.right y ::
      binary l (some y) rest

end Lane

namespace Clock

/-- The clock is high at an instant. -/
def isHigh (c : Clock) (t : Number) : Except NumberError Bool :=
  if c.offset ≤ t then do
    let since ← Checked.sub t c.offset
    let phase ← Checked.mod since c.period
    pure (phase.lt c.pulse)
  else pure false

/-- The clock with a pulse that fits into its period. -/
def fitted (c : Clock) : Clock :=
  { c with pulse := Number.min (Number.max c.pulse 0) c.period }

/-- The greatest number of edges of a waveform. -/
def maxEdges : Nat := 2000

/-- The edges of the periods from the given one on that lie between two instants, until there are
enough, appended to those before.  The first argument bounds the number of periods. -/
def edgesFrom (c : Clock) (first last : Number) :
    Nat → Int → List Number → Except NumberError (List Number)
  | 0, _, edges => pure edges
  | n + 1, k, edges =>
    if maxEdges ≤ edges.length then pure edges
    else do
      let rise ← Checked.add c.offset (← Checked.mul (.int k) c.period)
      if last < rise then pure edges
      else
        let fall ← Checked.add rise c.pulse
        let inside := [rise, fall].filter fun t => first.lt t && t.lt last
        edgesFrom c first last n (k + 1) (inside ++ edges)

/-- The points of a waveform at edges, which start at a given level. -/
def wave (c : Clock) (s : Scale) (l : Lane) (y : Rat) :
    List Number → Except NumberError (List Point)
  | [] => pure [pointAt s.right y]
  | t :: rest => do
    let x ← s.place t
    let next := if ← c.isHigh t then l.high else l.low
    let points ← wave c s l next rest
    pure (if next = y then points else pointAt x y :: pointAt x next :: points)

/-- The greatest number of periods that are looked at. -/
def maxPeriods : Nat := 1000000

/-- The points of the waveform of a clock. -/
def points (c : Clock) (s : Scale) (l : Lane) : Except NumberError (List Point) :=
  if c.period ≤ 0 then pure []
  else do
    let c := c.fitted
    let k ← Checked.floorDiv (← Checked.sub s.first c.offset) c.period
    let edges ← c.edgesFrom s.first s.last maxPeriods k []
    let y := if ← c.isHigh s.first then l.high else l.low
    let x ← s.place s.first
    let points ← c.wave s l y (inOrder edges)
    pure (pointAt x y :: points)

end Clock

namespace Lane

/-- The values of a curve with their places; states that are no numbers do not count. -/
def samples (gs : List Segment) : List (Number × Number) :=
  gs.filterMap fun g =>
    (Numeral.decimal? g.change.state.toList).map fun v => (g.left, .real v)

/-- The values at the lower and the upper side of a lane. -/
def bounds (range : Option (Number × Number)) (first : Number) (rest : List Number) :
    Except NumberError (Number × Number) :=
  let (low, high) := range.getD (Number.minimum first rest, Number.maximum first rest)
  if high == low then do pure (← Checked.sub low 1, ← Checked.add high 1)
  else pure (low, high)

/-- The place of a value of a curve. -/
def valueLevel (l : Lane) (low high v : Number) : Except NumberError Number := do
  let part ← Checked.div (← Checked.sub v low) (← Checked.sub high low)
  Checked.sub (.ratio l.low) (← Checked.mul part (.ratio (l.low - l.high)))

/-- The points of a curve; the last value holds up to the right side. -/
def curve (l : Lane) (s : Scale) (range : Option (Number × Number)) (gs : List Segment) :
    Except NumberError (List Point) :=
  match samples gs with
  | [] => pure []
  | (x, v) :: rest => do
    let (low, high) ← bounds range v (rest.map Prod.snd)
    let points ← ((x, v) :: rest).mapM fun (x, v) => do
      let y ← l.valueLevel low high v
      pure (⟨x, y⟩ : Point)
    pure (points ++ (points.getLast?.map fun p => ⟨s.right, p.y⟩).toList)

/-- The waveform of a lane. -/
def waveform (l : Lane) (s : Scale) : Except NumberError (List Mark) :=
  let segments := Segment.ofChanges s l.player.changes
  let line := Mark.polyline (waveStyle l.player.color)
  match l.player.kind with
  | .robust => do pure (l.robust none (← segments))
  | .concise | .rectangle => do pure ((← segments).flatMap l.bar)
  | .clock c => do pure (line (← c.points s l))
  | .binary => do pure (line (l.binary none (← segments)))
  | .analog range => do pure (line (← l.curve s range (← segments)))
  | .other _ => pure []

end Lane
end Timing
end UmlDraw
