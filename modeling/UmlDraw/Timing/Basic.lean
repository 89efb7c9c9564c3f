/-
# Timing diagrams

A timing diagram is a table of players, which change their states over time, and a list of each kind
of marks between them: constraints, messages, highlights and notes.  Instants are numbers; marks and
changes refer to players by their codes.
-/
import UmlDraw.Data.Keyed
import UmlDraw.Number.Checked

namespace UmlDraw
namespace Timing

/-- The waveform of a clock. -/
structure Clock where
  /-- The time between two rising edges. -/
  period : Number
  /-- The time between a rising and a falling edge. -/
  pulse : Number
  /-- The time of the first rising edge. -/
  offset : Number

/-- How the states of a player are drawn. -/
inductive PlayerKind where
  | robust
  | concise
  | rectangle
  | binary
  | clock (c : Clock)
  /-- A curve, with the values at the lower and the upper side of its lane if they are given. -/
  | analog (range : Option (Number × Number))
  /-- A kind written with unusual letters. -/
  | other (spelling : String)

namespace PlayerKind

/-- The name of a kind. -/
def name : PlayerKind → String
  | robust => "robust"
  | concise => "concise"
  | rectangle => "rectangle"
  | binary => "binary"
  | clock _ => "clock"
  | analog _ => "analog"
  | other s => s

/-- The kind that a word in small letters stands for. -/
def ofWord (s : String) : PlayerKind :=
  if s = "robust" then robust
  else if s = "concise" then concise
  else if s = "rectangle" then rectangle
  else other s

/-- The clock of a player that is one. -/
def clock? : PlayerKind → Option Clock
  | clock c => some c
  | _ => none

/-- The range of a curve. -/
def range? : PlayerKind → Option (Number × Number)
  | analog range => range
  | _ => none

end PlayerKind

/-- A change of state. -/
structure StateChange where
  time : Number
  state : String
  comment : Option String
  color : Option String

/-- A player. -/
structure Player where
  code : String
  /-- The label of the lane. -/
  display : String
  kind : PlayerKind := .robust
  /-- The lane stands closer to the next one. -/
  compact : Bool := false
  color : Option String := none
  stereotype : Option String := none
  /-- The states in order, the one at the top first. -/
  states : List String := []
  /-- The labels of states, by the codes that stand for them. -/
  stateLabels : Keyed String := Keyed.empty
  changes : List StateChange := []

namespace Player

/-- A player that is known by its code only. -/
def named (code : String) : Player where
  code := code
  display := code

/-- The label of a state. -/
def stateLabel (p : Player) (state : String) : String :=
  (p.stateLabels.get? state).getD state

/-- The player with one more state, unless it has it. -/
def addState (p : Player) (state : String) : Player :=
  if p.states.contains state then p else { p with states := p.states ++ [state] }

/-- The player with one more change; the states of a clock are not listed. -/
def record (p : Player) (c : StateChange) : Player :=
  let p := { p with changes := p.changes ++ [c] }
  if p.kind.clock?.isSome then p else p.addState c.state

/-- The player with its changes in the order of time; changes at one time keep their order. -/
def sortChanges (p : Player) : Player :=
  { p with changes := p.changes.mergeSort fun a b => !(b.time.lt a.time) }

/-- The player as a later declaration changes it. -/
def redeclare (p more : Player) : Player :=
  { p with
    kind := more.kind
    compact := more.compact
    color := more.color.or p.color
    stereotype := more.stereotype.or p.stereotype
    display := if more.display = more.code then p.display else more.display }

end Player

/-- A span of time with a label, at a player or at no player. -/
structure Constraint where
  start : Number
  stop : Number
  player : Option String
  label : String

/-- A message from a player at one time to a player at another. -/
structure Message where
  source : String
  sourceTime : Number
  target : String
  targetTime : Number
  label : String

/-- A span of time that stands out. -/
structure Highlight where
  start : Number
  stop : Number
  color : Option String
  caption : String

/-- A note at a player. -/
structure PlayerNote where
  /-- The note stands at the top of the lane; else at the bottom. -/
  atTop : Bool
  player : String
  text : String
  color : Option String

/-- The numbers of a sorted list, each once. -/
def dropRepeated : List Number → List Number
  | [] => []
  | t :: rest =>
    match dropRepeated rest with
    | [] => [t]
    | u :: more => if t == u then t :: more else t :: u :: more

/-- The numbers of a list in order, each once. -/
def inOrder (ts : List Number) : List Number :=
  dropRepeated (ts.mergeSort Number.le)

/-- A timing diagram. -/
structure Diagram where
  title : Option String := none
  /-- The players, by code, in order of first mention. -/
  players : Keyed Player := Keyed.empty
  constraints : List Constraint := []
  messages : List Message := []
  highlights : List Highlight := []
  notes : List PlayerNote := []
  /-- The instants that have names. -/
  instants : Keyed Number := Keyed.empty
  /-- No axis is drawn. -/
  hideAxis : Bool := false
  /-- All lanes stand closer to each other. -/
  compact : Bool := false

namespace Diagram

/-- All instants of a diagram. -/
def allTimes (d : Diagram) : List Number :=
  (d.players.values.flatMap fun p => p.changes.map StateChange.time) ++
    (d.constraints.flatMap fun c => [c.start, c.stop]) ++
    (d.messages.flatMap fun m => [m.sourceTime, m.targetTime]) ++
    d.highlights.flatMap fun h => [h.start, h.stop]

/-- The instants of a diagram in order, each once. -/
def times (d : Diagram) : List Number :=
  inOrder d.allTimes

end Diagram
end Timing
end UmlDraw
