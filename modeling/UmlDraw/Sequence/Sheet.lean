/-
# The sheet of a sequence diagram

A sequence diagram is drawn from top to bottom on a *sheet*, which holds the cells drawn so far in
layers, the columns, the open activation bars, and a cursor that moves down.  Boxes and frames lie
behind lifelines, and lifelines behind messages, whatever the order in which they are drawn.  The
first place or number that has no value is kept as the fault of the sheet.
-/
import UmlDraw.Drawing.Document
import UmlDraw.Sequence.Columns

namespace UmlDraw
namespace Sequence

/-- The layers of cells, from back to front. -/
structure Layers where
  /-- Boxes around headers. -/
  boxes : List Cell := []
  /-- Frames of fragments. -/
  frames : List Cell := []
  /-- Lifelines. -/
  lifelines : List Cell := []
  /-- Activation bars. -/
  bars : List Cell := []
  /-- Headers, notes and separators. -/
  shapes : List Cell := []
  /-- Messages. -/
  messages : List Cell := []

/-- The cells of all layers, from back to front. -/
def Layers.all (l : Layers) : List Cell :=
  l.boxes ++ l.frames ++ l.lifelines ++ l.bars ++ l.shapes ++ l.messages

/-- The names of the layers. -/
inductive Layer where
  | boxes
  | frames
  | lifelines
  | bars
  | shapes
  | messages

/-- Adds a cell to a layer. -/
def Layers.add (l : Layers) (layer : Layer) (c : Cell) : Layers :=
  match layer with
  | .boxes => { l with boxes := l.boxes ++ [c] }
  | .frames => { l with frames := l.frames ++ [c] }
  | .lifelines => { l with lifelines := l.lifelines ++ [c] }
  | .bars => { l with bars := l.bars ++ [c] }
  | .shapes => { l with shapes := l.shapes ++ [c] }
  | .messages => { l with messages := l.messages ++ [c] }

/-- An open activation. -/
structure Bar where
  /-- Where it starts. -/
  start : Number
  /-- The number of open activations of the participant below it. -/
  depth : Nat
  /-- Who activated the participant, if known. -/
  caller : Option String
  /-- The color. -/
  color : Option String

/-- The numbering of messages. -/
structure Numbering where
  /-- Messages get numbers. -/
  active : Bool := false
  /-- The next number. -/
  value : Int := 1
  /-- The distance between numbers. -/
  step : Int := 1
  /-- The form of a number. -/
  format : Option String := none

/-- What is drawn so far. -/
structure Sheet where
  /-- The id of the cell around the drawing. -/
  parent : String
  /-- The number of cells drawn so far. -/
  count : Nat := 0
  /-- The cells drawn so far. -/
  layers : Layers := {}
  /-- The columns, from left to right. -/
  columns : List Column
  /-- The upper side of the headers. -/
  headerTop : Int
  /-- The left border. -/
  leftEdge : Number
  /-- The right border. -/
  rightEdge : Number
  /-- The open activations of each column, innermost first. -/
  bars : List (String × List Bar)
  /-- The numbering. -/
  numbering : Numbering := {}
  /-- Participants that the next message to them creates. -/
  expected : List String := []
  /-- Where the next element starts. -/
  cursor : Number
  /-- The height of the last message. -/
  lastY : Option Number := none
  /-- The ends of the last message, if it joins two participants. -/
  lastEnds : Option (String × String) := none
  /-- The place of the last message in its layer, if nothing else was drawn since. -/
  lastCell : Option Nat := none
  /-- Why the diagram cannot be drawn, if it cannot. -/
  fault : Option NumberError := none

namespace Sheet

/-- The id of the next cell. -/
def nextId (s : Sheet) : String :=
  Document.numberedId "puml" (s.count + 1)

/-- Keeps a fault, if there is one and none was met before. -/
def meet (s : Sheet) (fault : Option NumberError) : Sheet :=
  { s with fault := s.fault.or fault }

/-- Draws a cell on a layer. -/
def put (s : Sheet) (layer : Layer) (c : Cell) : Sheet :=
  { s.meet c.fault? with count := s.count + 1, layers := s.layers.add layer c }

/-- Draws a shape on a layer. -/
def shape (s : Sheet) (layer : Layer) (value : String) (style : Style)
    (x y width height : Number) : Sheet :=
  s.put layer (Cell.shape s.nextId value style.render s.parent x y width height)

/-- Draws a line on a layer. -/
def line (s : Sheet) (layer : Layer) (value : String) (style : Style) (start stop : Point)
    (points : List Point) : Sheet :=
  s.put layer (Cell.freeConnector s.nextId value style.render s.parent start stop points)

/-- The column of a participant. -/
def column? (s : Sheet) (code : String) : Option Column :=
  s.columns.find? fun c => c.participant.code == code

/-- The participant has a column. -/
def hasColumn (s : Sheet) (code : String) : Bool :=
  (s.column? code).isSome

/-- The middle of the column of a participant. -/
def center (s : Sheet) (code : String) : Number :=
  ((s.column? code).map Column.center).getD 0

/-- Changes the column of a participant. -/
def changeColumn (s : Sheet) (code : String) (f : Column → Column) : Sheet :=
  { s with columns := s.columns.map fun c => if c.participant.code == code then f c else c }

/-- The open activations of a participant, innermost first. -/
def barsOf (s : Sheet) (code : String) : List Bar :=
  (s.bars.lookup code).getD []

/-- Changes the open activations of a participant. -/
def setBars (s : Sheet) (code : String) (bars : List Bar) : Sheet :=
  { s with bars := s.bars.map fun (c, bs) => if c == code then (c, bars) else (c, bs) }

/-- Moves the cursor down. -/
def advance (s : Sheet) (distance : Number) : Sheet :=
  { s with cursor := s.cursor + distance }

/-- Moves the cursor down to a place, if it is above it. -/
def reach (s : Sheet) (y : Number) : Sheet :=
  { s with cursor := Number.max s.cursor y }

/-- The end of a message at a participant, on the side toward a place. -/
def xAt (s : Sheet) (code : String) (toward : Number) : Number :=
  let center := s.center code
  match s.barsOf code with
  | [] => center
  | bars =>
    let offset : Number := .int ((bars.length - 1) * 5)
    if toward < center then center - .real 5.0 + offset else center + .real 5.0 + offset

/-- Opens an activation. -/
def activate (s : Sheet) (code : String) (y : Number) (caller color : Option String) : Sheet :=
  let bars := s.barsOf code
  s.setBars code (⟨y, bars.length, caller, color⟩ :: bars)

/-- Closes the innermost activation of a participant, if there is one, and draws it. -/
def deactivate (s : Sheet) (code : String) (y : Number) : Sheet :=
  match s.barsOf code with
  | [] => s
  | bar :: rest =>
    let stop := Number.max y (bar.start + 10)
    (s.setBars code rest).shape .bars "" (barStyle bar.color)
      (s.center code - .real 5.0 + .int (bar.depth * 5)) bar.start 10 (stop - bar.start)

/-- Closes all activations of a participant. -/
def deactivateAll (s : Sheet) (code : String) (y : Number) : Sheet :=
  (s.barsOf code).foldl (fun s _ => s.deactivate code y) s

/-- Ends a lifeline. -/
def destroy (s : Sheet) (code : String) (y : Number) : Sheet :=
  let s := (s.deactivateAll code y).changeColumn code fun c => { c with endY := some y }
  s.shape .shapes "" destroyStyle (s.center code - .real 9.0) (y - .real 9.0) 18 18

/-- The shortcut opens an activation. -/
def opens (shortcut : Option String) : Bool :=
  shortcut == some "++" || shortcut == some "--++" || shortcut == some "++--"

/-- The shortcut closes an activation. -/
def closes (shortcut : Option String) : Bool :=
  shortcut == some "--" || shortcut == some "--++" || shortcut == some "++--"

/-- The participant is created by the next message to it. -/
def expect (s : Sheet) (code : String) : Sheet :=
  { s with expected := code :: s.expected }

/-- Handles a shortcut before its message is drawn. -/
def beforeMessage (s : Sheet) (shortcut source : Option String) (target : String) (y : Number)
    (color : Option String) : Sheet :=
  if opens shortcut then s.activate target y source color
  else if shortcut == some "**" then s.expect target
  else s

/-- Handles a shortcut after its message is drawn. -/
def afterMessage (s : Sheet) (shortcut : Option String) (source target : String) (y : Number) :
    Sheet :=
  if closes shortcut then s.deactivate source y
  else if shortcut == some "!!" then s.destroy target y
  else s

/-- The innermost open activation of the column with the latest one; of two that start at the same
height the one further right counts. -/
def latestBar (s : Sheet) : Option (String × Bar) :=
  s.bars.foldl (fun latest (code, bars) =>
    match bars, latest with
    | [], _ => latest
    | bar :: _, none => some (code, bar)
    | bar :: _, some (_, best) => if best.start ≤ bar.start then some (code, bar) else latest) none

/-- The ends of a return: from the latest open activation to who opened it; without an open
activation, back along the last message. -/
def returnEnds (s : Sheet) : Option (String × String) :=
  match s.latestBar with
  | none => s.lastEnds.map fun (source, target) => (target, source)
  | some (code, bar) =>
    let other := (s.columns.find? fun c => c.participant.code != code).map (·.participant.code)
    match bar.caller with
    | some caller => some (code, if caller == code then other.getD code else caller)
    | none => some (code, other.getD code)

/-- Opens a row for a message and gives its height.  A parallel message stands in the row of the
one before. -/
def row (s : Sheet) (isParallel : Bool) (label : String) : Sheet × Number :=
  match isParallel, s.lastY with
  | true, some y => (s, y)
  | _, _ =>
    let extra := if label.isEmpty then 0 else max 0 (textHeight label - 16)
    let s := s.advance (.int extra)
    let y := s.cursor + .real 20.0
    ((s.advance 40).meet y.fault?, y)

/-- Moves the header of a participant that is created now to the given height; the second result
says whether it is created now. -/
def placeCreated (s : Sheet) (code : String) (y : Number) : Sheet × Bool :=
  if s.expected.contains code then
    let s := { s with expected := s.expected.filter (· != code) }
    let s := s.changeColumn code fun c => { c with headerY := y - Number.half c.height }
    let top := ((s.column? code).map Column.lifelineTop).getD 0
    (s.reach (top + .real 20.0), true)
  else (s, false)

/-- The label of the next message, with its number if messages get numbers. -/
def number (s : Sheet) (label : String) : Sheet × String :=
  let n := s.numbering
  if n.active then
    ({ s.meet (Number.int n.value).textFault? with
        numbering := { n with value := n.value + n.step } },
      Text.trim (numberText n.value n.format ++ " " ++ label))
  else (s, label)

/-- Handles a directive about the numbering. -/
def renumber (s : Sheet) (a : AutoNumber) : Sheet :=
  let n := s.numbering
  if a.stop then { s with numbering := { n with active := false } }
  else
    { s with
      numbering :=
        { active := true
          value := a.start.getD n.value
          step := a.step
          format := if a.format.isSome || !a.resume then a.format else n.format } }

/-- Draws a note at a message. -/
def arrowNote (s : Sheet) (note : ArrowNote) (source target : String) (y : Number) : Sheet :=
  let width : Number := .int (max 120 (textWidth note.text))
  let height : Number := .int (textHeight note.text + 10)
  let a := s.center source
  let b := s.center target
  let (low, high) := if b < a then (b, a) else (a, b)
  let (x, top) :=
    match note.position with
    | .left => (low - width - 10, y - Number.half height)
    | .top => (Number.half (low + high - width), y - height - 10)
    | .bottom => (Number.half (low + high - width), y + 10)
    | _ => (high + (if source == target then 30 else 0) + 10, y - Number.half height)
  (s.shape .shapes (Label.html note.text) (noteStyle "note" note.color) x top width height).reach
    (top + height + 10)

/-- Draws a message to oneself. -/
def selfMessage (s : Sheet) (m : Message) (code label : String) (y : Number) : Sheet :=
  let x := s.xAt code (s.center code + 1)
  (s.line .messages label (m.arrow.style true) ⟨x, y⟩ ⟨x, y + 20⟩
    [⟨x + 30, y⟩, ⟨x + 30, y + 20⟩]).advance 20

/-- Draws a message from one participant to another one. -/
def crossMessage (s : Sheet) (m : Message) (source target label : String) (y : Number) : Sheet :=
  let start := s.center source
  let goal := s.center target
  let x1 := s.xAt source goal
  let (s, created) := s.placeCreated target y
  let half := ((s.column? target).map fun c => Number.half c.width).getD 0
  let x2 :=
    if created then (if start < goal then goal - half else goal + half) else s.xAt target start
  s.line .messages label (m.arrow.style false) ⟨x1, y⟩ ⟨x2, y⟩ []

/-- Draws the arrow to a further target of a message. -/
def furtherTarget (m : Message) (source : String) (y : Number) (s : Sheet) (extra : String) :
    Sheet :=
  if s.hasColumn extra && extra != source then
    s.line .messages "" (m.arrow.style false) ⟨s.xAt source (s.center extra), y⟩
      ⟨s.xAt extra (s.center source), y⟩ []
  else s

/-- Draws a message between the given participants. -/
def messageBetween (s : Sheet) (m : Message) (source target : String) : Sheet :=
  let (s, y) := s.row m.isParallel m.label
  let s := s.beforeMessage m.activation (some source) target y m.activationColor
  let (s, label) := s.number m.label
  let label := Label.html label
  let place := s.layers.messages.length
  let s :=
    if source == target then s.selfMessage m source label y
    else s.crossMessage m source target label y
  let s := m.multicast.foldl (furtherTarget m source y) s
  let s :=
    match m.note with
    | some note => s.arrowNote note source target y
    | none => s
  let s := s.afterMessage m.activation source target y
  let s := if m.isReturn then s.deactivate source y else s
  { s with lastY := some y, lastEnds := some (source, target), lastCell := some place }

/-- Draws a message; one without known ends is not drawn. -/
def message (s : Sheet) (m : Message) : Sheet :=
  match if m.isReturn then s.returnEnds else some (m.source, m.target) with
  | none => s
  | some (source, target) =>
    if s.hasColumn source && s.hasColumn target then s.messageBetween m source target else s

/-- Draws a message from or to the border. -/
def border (s : Sheet) (m : BorderMessage) : Sheet :=
  if !s.hasColumn m.participant then s
  else
    let (s, y) := s.row m.isParallel m.label
    let s :=
      if m.kind.isIncoming then s.beforeMessage m.activation none m.participant y none else s
    let (start, stop) : Number × Number :=
      if m.kind.isLeft then (s.leftEdge, s.xAt m.participant s.leftEdge)
      else (s.xAt m.participant s.rightEdge, s.rightEdge)
    let (s, label) := s.number m.label
    let place := s.layers.messages.length
    let s := s.line .messages (Label.html label) (m.arrow.style false) ⟨start, y⟩ ⟨stop, y⟩ []
    let s :=
      if !m.kind.isIncoming && closes m.activation then s.deactivate m.participant y
      else if m.activation == some "!!" then s.destroy m.participant y
      else s
    { s with lastY := some y, lastEnds := none, lastCell := some place }

/-- Moves the end of the last message onto the bar that was opened behind it. -/
def snap (s : Sheet) (code : String) : Sheet :=
  match s.lastCell with
  | none => s
  | some place =>
    let move (g : Geometry) : Geometry :=
      match g.sourcePoint, g.targetPoint with
      | some start, some stop =>
        if g.points.isEmpty then { g with targetPoint := some ⟨s.xAt code start.x, stop.y⟩ } else g
      | _, _ => g
    let messages := s.layers.messages.modify place fun c =>
      { c with geometry := c.geometry.map move }
    { s with layers := { s.layers with messages := messages } }

/-- The ends and the height of the last message, if nothing else was drawn since and it joins two
participants. -/
def justDrawn (s : Sheet) : Option (String × String × Number) :=
  match s.lastCell, s.lastEnds, s.lastY with
  | some _, some (source, target), some y => some (source, target, y)
  | _, _, _ => none

/-- Handles an event of a lifeline.  Right behind a message to the participant (from it, for the
end of an activation) the event happens at the height of the message. -/
def life (s : Sheet) (e : LifeEvent) : Sheet :=
  if !s.hasColumn e.participant then s
  else
    match e.kind with
    | .activate =>
      match s.justDrawn with
      | some (source, target, y) =>
        if target == e.participant then
          (s.activate e.participant y (some source) e.color).snap e.participant
        else s.activate e.participant s.cursor none e.color
      | none => s.activate e.participant s.cursor none e.color
    | .deactivate =>
      match s.justDrawn with
      | some (source, _, y) =>
        s.deactivate e.participant (if source == e.participant then y else s.cursor)
      | none => s.deactivate e.participant s.cursor
    | .destroy =>
      let y :=
        match s.justDrawn with
        | some (_, target, y) => if target == e.participant then y else s.cursor
        | none => s.cursor
      (s.destroy e.participant y).reach (y + 18)
    | .create => s.expect e.participant
    | .other _ => s

/-- Where some columns begin and end, with some room around; without a known column, where all of
them do. -/
def span (s : Sheet) (codes : List String) (pad : Number) : Number × Number :=
  let known := codes.filterMap s.column?
  match if known.isEmpty then s.columns else known with
  | [] => (s.leftEdge, s.rightEdge)
  | first :: rest =>
    (Number.minimum first.left (rest.map Column.left) - pad,
      Number.maximum first.right (rest.map Column.right) + pad)

/-- Nothing that follows belongs to the last message. -/
def forget (s : Sheet) : Sheet :=
  { s with lastCell := none }

/-- The left side and the width of a note beside or over lifelines. -/
def notePlace (s : Sheet) (n : Note) (width : Number) : Number × Number :=
  match n.participants with
  | [] =>
    let (left, right) := s.span [] 10
    (left, right - left)
  | first :: _ =>
    if n.position == .covering then
      match (n.participants.filterMap s.column?).map Column.center with
      | [] => (s.leftEdge, width)
      | [c] => (c - Number.half width, width)
      | c :: rest =>
        let low := Number.minimum c rest
        let high := Number.maximum c rest
        (low - 30, Number.max width (high - low + 60))
    else if n.position == .left then (s.center first - width - 10, width)
    else (s.center first + 10, width)

/-- Draws a note beside or over lifelines. -/
def note (s : Sheet) (n : Note) : Sheet :=
  let height : Number := .int (textHeight n.text + 10)
  let n := if n.isAcross then { n with participants := [] } else n
  let (x, width) := s.notePlace n (.int (max 120 (textWidth n.text)))
  ((s.shape .shapes (Label.html n.text) (noteStyle n.shape n.color) x s.cursor width
    height).advance (height + 10)).forget

/-- Draws a divider. -/
def divider (s : Sheet) (label : String) : Sheet :=
  let s := s.advance 10
  ((s.shape .shapes label dividerStyle s.leftEdge s.cursor (s.rightEdge - s.leftEdge) 20).advance
    30).forget

/-- Draws a delay. -/
def delay (s : Sheet) (label : String) : Sheet :=
  let s :=
    if label.isEmpty then s
    else s.shape .shapes label delayStyle s.leftEdge s.cursor (s.rightEdge - s.leftEdge) 30
  (s.advance 30).forget

/-- Draws a reference. -/
def reference (s : Sheet) (r : Reference) : Sheet :=
  let (left, right) := s.span r.participants 10
  let height : Number := .int (max 30 (textHeight r.text + 20))
  ((s.shape .shapes (Label.html ("ref: " ++ r.text)) (referenceStyle r.color) left s.cursor
    (right - left) height).advance (height + 10)).forget

end Sheet
end Sequence
end UmlDraw
