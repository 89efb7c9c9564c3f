/-
# Lanes and the scale of time

Every player has a lane; lanes lie below each other.  Time runs from left to right, on a scale that
keeps the closest instants and the edges of clocks apart, as far as the greatest width allows.
-/
import UmlDraw.Timing.Basic

namespace UmlDraw
namespace Timing

open Number (Checked.add Checked.sub Checked.mul Checked.div)

/-- The left side of all lanes. -/
def laneLeft : Number := 140

/-- The scale of time. -/
structure Scale where
  /-- The instants on the axis. -/
  times : List Number
  /-- The instant at the left side. -/
  first : Number
  /-- The last instant. -/
  last : Number
  /-- The width of all lanes. -/
  width : Number
  /-- The width of a unit of time. -/
  unit : Number

namespace Scale

/-- The positive differences between neighbours. -/
def gaps : List Number → Except NumberError (List Number)
  | a :: b :: rest => do
    let more ← gaps (b :: rest)
    if a < b then
      let gap ← Checked.sub b a
      pure (gap :: more)
    else pure more
  | _ => pure []

/-- The greatest of some periods behind an instant. -/
def lastOf (first last : Number) (periods : List Number) : Except NumberError Number :=
  match periods with
  | p :: more =>
    if last == first then do
      let span ← Checked.mul 4 (Number.maximum p more)
      Checked.add first span
    else pure last
  | [] => pure last

/-- The width of a span of time in which the shortest distance that is to be seen gets 80. -/
def widthOf (span : Number) (distances : List Number) : Except NumberError Number := do
  let shortest :=
    match distances with
    | [] => span
    | d :: more => Number.minimum d more
  let count ← Checked.div span shortest
  let width ← Checked.mul (← Checked.mul count 40) 2
  pure (Number.max 200 (Number.min 1600 width))

/-- The periods of the clocks of a diagram. -/
def periods (d : Diagram) : List Number :=
  (d.players.values.filterMap fun p => p.kind.clock?.map Clock.period).filter fun n =>
    Number.lt 0 n

/-- The scale of a diagram. -/
def ofDiagram (d : Diagram) : Except NumberError Scale := do
  let times := if d.times.isEmpty then [0] else d.times
  let first := times.headD 0
  let periods := periods d
  let last ← lastOf first (times.getLastD 0) periods
  let span ← Checked.sub last first
  if span ≤ 0 then pure ⟨times, first, last, 200, 0⟩
  else
    let width ← widthOf span ((← gaps times) ++ periods)
    let unit ← Checked.div width span
    pure ⟨times, first, last, width, unit⟩

/-- The right side of all lanes. -/
def right (s : Scale) : Number :=
  laneLeft + s.width

/-- The place of an instant. -/
def place (s : Scale) (t : Number) : Except NumberError Number := do
  let span ← Checked.sub t s.first
  Checked.add laneLeft (← Checked.mul span s.unit)

end Scale

/-- The lane of a player. -/
structure Lane where
  player : Player
  /-- The upper side. -/
  y : Rat
  height : Rat

namespace Lane

/-- The lower side. -/
def bottom (l : Lane) : Rat :=
  l.y + l.height

/-- The middle between the upper and the lower side. -/
def center (l : Lane) : Rat :=
  l.y + l.height / 2

/-- Where a waveform is high. -/
def high (l : Lane) : Rat :=
  l.y + 6

/-- Where a waveform is low. -/
def low (l : Lane) : Rat :=
  l.bottom - 6

/-- The height of the lane of a player. -/
def heightOf (p : Player) : Rat :=
  match p.kind with
  | .robust => (max 60 (max 2 p.states.length * 20 + 10) : Nat)
  | .clock _ => 40
  | .analog _ => 60
  | _ => 30

/-- The room below a lane. -/
def gap : Rat := 20

/-- The lanes of players from the given place on, and the place below the last one. -/
def stack (compact : Bool) (y : Rat) : List Player → List Lane × Rat
  | [] => ([], y)
  | p :: rest =>
    let height := heightOf p
    let (lanes, bottom) :=
      stack compact (y + height + if p.compact || compact then gap / 2 else gap) rest
    (⟨p, y, height⟩ :: lanes, bottom)

end Lane
end Timing
end UmlDraw
