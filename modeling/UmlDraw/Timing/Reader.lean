/-
# Reading timing diagrams

`Reader` is the machine that reads a diagram line by line.  It remembers the last instant and, while
lines speak of one player, that player.  Reading fails only if a time behind the last instant is too
large.
-/
import UmlDraw.Source.Line
import UmlDraw.Timing.Line

namespace UmlDraw
namespace Timing

/-- The state between two lines. -/
structure Reader where
  /-- The diagram so far. -/
  diagram : Diagram := {}
  /-- The last instant. -/
  now : Number := 0
  /-- The code of the current player. -/
  current : Option String := none
  /-- An open note with its lines so far. -/
  note : Option (PlayerNote × List (List Char)) := none

namespace Reader

/-- The instant that is meant; a name without one means the last instant. -/
def resolve (r : Reader) : TimeToken → Except NumberError Number
  | .absolute n => .ok n
  | .relative n => do
    let t ← Number.Checked.add r.now n
    Number.Checked.clean t
  | .named code => .ok ((r.diagram.instants.get? code).getD r.now)

/-- Changes a player. -/
def changePlayer (r : Reader) (code : String) (f : Player → Player) : Reader :=
  { r with diagram := { r.diagram with players := r.diagram.players.modify code f } }

/-- Makes a player, unless it is known. -/
def mention (r : Reader) (code : String) : Reader :=
  if r.diagram.players.contains code then r
  else
    { r with
      diagram :=
        { r.diagram with players := r.diagram.players.insert code (Player.named code) } }

/-- Declares a player. -/
def declare (r : Reader) (p : Player) : Reader :=
  if r.diagram.players.contains p.code then r.changePlayer p.code fun old => old.redeclare p
  else { r with diagram := { r.diagram with players := r.diagram.players.insert p.code p } }

/-- Records a change of a player at the last instant. -/
def record (r : Reader) (code : String) (c : ChangeHead) : Reader :=
  r.changePlayer code fun p => p.record ⟨r.now, c.state, c.comment, c.color⟩

/-- Appends a note. -/
def addNote (r : Reader) (n : PlayerNote) : Reader :=
  { r with diagram := { r.diagram with notes := r.diagram.notes ++ [n] } }

/-- Goes to an instant. -/
def goTo (r : Reader) (t : TimeToken) : Except NumberError Reader := do
  let time ← r.resolve t
  pure { r with now := time }

/-- Gives a name to the last instant. -/
def nameNow (r : Reader) (name : Option String) : Reader :=
  match name with
  | none => r
  | some code =>
    { r with diagram := { r.diagram with instants := r.diagram.instants.insert code r.now } }

/-- Handles a line with a meaning. -/
def apply (r : Reader) : Line → Except NumberError Reader
  | .title s => pure { r with diagram := { r.diagram with title := some s } }
  | .compact => pure { r with diagram := { r.diagram with compact := true } }
  | .hideAxis => pure { r with diagram := { r.diagram with hideAxis := true } }
  | .player p => pure (r.declare p)
  | .hasLabel player state label =>
    pure (r.changePlayer player fun p =>
      { p with stateLabels := p.stateLabels.insert state label }.addState state)
  | .hasStates player states =>
    pure (r.changePlayer player fun p => states.foldl Player.addState p)
  | .note n => pure (r.addNote n)
  | .noteStart n => pure { r with note := some (n, []) }
  | .highlight start stop color caption => do
    let h : Highlight := ⟨← r.resolve start, ← r.resolve stop, color, caption⟩
    pure { r with diagram := { r.diagram with highlights := r.diagram.highlights ++ [h] } }
  | .constraint player start stop label => do
    let c : Constraint := ⟨← r.resolve start, ← r.resolve stop, player, label⟩
    pure { r with diagram := { r.diagram with constraints := r.diagram.constraints ++ [c] } }
  | .message source sourceTime target targetTime label => do
    let r := (r.mention source).mention target
    let m : Message := ⟨source, ← r.resolve sourceTime, target, ← r.resolve targetTime, label⟩
    pure { r with diagram := { r.diagram with messages := r.diagram.messages ++ [m] } }
  | .atTime t name => do
    let r ← r.goTo t
    pure ({ r with current := none }.nameNow name)
  | .atPlayer code =>
    pure (if r.diagram.players.contains code then { r with current := some code } else r)
  | .playerIs code c => pure ((r.mention code).record code c)
  | .timeIs t c =>
    match r.current with
    | none => pure r
    | some code => do
      let r ← r.goTo t
      pure (r.record code c)

/-- Handles a line. -/
def step (r : Reader) (line : SourceLine) : Except NumberError Reader :=
  match r.note with
  | some (n, lines) =>
    pure (if Token.endNote.reads line.text then
      { r with note := none }.addNote { n with text := Label.dedent lines }
    else { r with note := some (n, lines ++ [line.raw]) })
  | none =>
    match Line.read? line.text with
    | some l => r.apply l
    | none => pure r

/-- The diagram that was read. -/
def finish (r : Reader) : Diagram :=
  { r.diagram with players := r.diagram.players.map fun _ p => p.sortChanges }

end Reader

/-- The diagram of a text. -/
def Diagram.read (text : String) : Except NumberError Diagram := do
  let r ← (Source.lines text).foldlM Reader.step {}
  pure r.finish

end Timing
end UmlDraw
