/-
# Reading a sequence diagram

`Reader` is the machine that reads a sequence diagram line by line.  It keeps the innermost open
element list and a stack of the open fragments around it.  Notes at messages are kept aside with
the number of their message, because the message may lie in a fragment that is closed by then;
they are put at their messages in the end.  A number that cannot be read is kept as the fault of the
reader.
-/
import UmlDraw.Sequence.Line
import UmlDraw.Source.Line

namespace UmlDraw
namespace Sequence

/-- An open fragment, together with the elements before it in the list that holds it. -/
structure OpenFragment where
  /-- The elements before the fragment. -/
  before : List Element
  /-- The word for its kind. -/
  kind : String
  /-- The label behind the word. -/
  label : String
  /-- Its color. -/
  color : Option String
  /-- Its closed sections. -/
  sections : List (Section Element)
  /-- The condition of the open section. -/
  condition : String

/-- A note or a reference that goes on over several lines. -/
inductive OpenBlock where
  | note (head : NoteHead)
  | arrowNote (position : Side) (color : Option String)
  | reference (participants : List String) (color : Option String)

/-- The state between two lines. -/
structure Reader where
  /-- The title. -/
  title : Option String := none
  /-- No lower headers. -/
  hideFootbox : Bool := false
  /-- The participants so far. -/
  participants : Keyed Participant := Keyed.empty
  /-- The boxes so far. -/
  boxes : List Box := []
  /-- The last box is open. -/
  inBox : Bool := false
  /-- The elements of the innermost open list. -/
  elements : List Element := []
  /-- The open fragments, innermost first. -/
  fragments : List OpenFragment := []
  /-- The number of messages and returns so far. -/
  messages : Nat := 0
  /-- The notes at messages so far, each with the number of its message, latest first. -/
  arrowNotes : List (Nat × ArrowNote) := []
  /-- The open block, with its lines so far. -/
  block : Option (OpenBlock × List (List Char)) := none
  /-- Why the text cannot be read, if it cannot. -/
  fault : Option NumberError := none

namespace Reader

/-- Appends an element to the innermost open list. -/
def add (r : Reader) (e : Element) : Reader :=
  { r with elements := r.elements ++ [e] }

/-- Declares a participant, if there is none with the code. -/
def mention (r : Reader) (code : String) : Reader :=
  if r.participants.contains code then r
  else { r with participants := r.participants.insert code { code := code, displayName := code } }

/-- Declares all participants of a list. -/
def mentionAll (r : Reader) (codes : List String) : Reader :=
  codes.foldl mention r

/-- Changes a participant. -/
def change (r : Reader) (code : String) (f : Participant → Participant) : Reader :=
  { r with participants := r.participants.modify code f }

/-- Puts a note at the last message; without a message it is dropped. -/
def attach (r : Reader) (note : ArrowNote) : Reader :=
  match r.messages with
  | 0 => r
  | n + 1 => { r with arrowNotes := (n, note) :: r.arrowNotes }

/-- Ends an open block with the text of its lines. -/
def closeBlock (r : Reader) (b : OpenBlock) (text : String) : Reader :=
  let r := { r with block := none }
  match b with
  | .note h => r.add (.note ⟨h.participants, h.position, text, h.shape, h.color, h.isAcross⟩)
  | .arrowNote position color => r.attach ⟨position, text, color⟩
  | .reference participants color => r.add (.reference ⟨participants, text, color⟩)

/-- Puts a participant into the open box, if there is one. -/
def enterBox (r : Reader) (code : String) : Reader :=
  if r.inBox then
    match r.boxes.reverse with
    | [] => r
    | box :: others =>
      let box :=
        if box.participants.contains code then box
        else { box with participants := box.participants ++ [code] }
      { r with boxes := (box :: others).reverse }
  else r

/-- Handles a declaration. -/
def declare (r : Reader) (d : Declaration) : Reader :=
  let r := (r.mention d.code).change d.code fun p =>
    { p with
      displayName := d.displayName, kind := d.kind
      stereotype := d.stereotype.or p.stereotype, color := d.color.or p.color
      order := d.order.or p.order, isCreated := d.isCreated || p.isCreated }
  let r := if d.isCreated then r.add (.life { participant := d.code, kind := .create }) else r
  r.enterBox d.code

/-- The fragment that an open one becomes with the elements of its last section. -/
def OpenFragment.close (f : OpenFragment) (elements : List Element) : Element :=
  .fragment ⟨f.kind, f.label, f.color, f.sections ++ [⟨f.condition, elements⟩]⟩

/-- Closes the innermost open fragment, if there is one. -/
def closeFragment (r : Reader) : Reader :=
  match r.fragments with
  | [] => r
  | f :: rest =>
    { r with elements := f.before ++ [OpenFragment.close f r.elements], fragments := rest }

/-- Starts a new section of the innermost open fragment, if there is one. -/
def splitFragment (r : Reader) (condition : String) : Reader :=
  match r.fragments with
  | [] => r
  | f :: rest =>
    { r with
      elements := []
      fragments :=
        { f with sections := f.sections ++ [⟨f.condition, r.elements⟩], condition := condition } ::
          rest }

/-- Opens a fragment. -/
def openFragment (r : Reader) (kind : String) (color : Option String) (label : String) : Reader :=
  { r with elements := [], fragments := ⟨r.elements, kind, label, color, [], label⟩ :: r.fragments }

/-- The kind of a message at the border: the head at its end lands on the participant when the
border is on the left, and on the border when it is on the right. -/
def borderKind (isLeft : Bool) (a : Arrow) : BorderKind :=
  if isLeft then (if a.endHead == .none then .toLeft else .fromLeft)
  else (if a.endHead == .none then .fromRight else .toRight)

/-- Handles a message from or to the border.  A color at the end belongs to the arrow, unless an
activation stands before it. -/
def addBorder (r : Reader) (m : BorderLine) : Reader :=
  let arrow :=
    if m.color.isSome && m.activation.isNone then { m.arrow with color := m.color } else m.arrow
  (r.mention m.participant).add
    (.border ⟨m.participant, m.label, arrow, borderKind m.isLeft m.arrow, m.isParallel,
      m.activation⟩)

/-- The message of a line, in drawing order: an arrow that points only at its left operand is
turned around.  A color at the end belongs to the activation, if there is one, else to the
arrow. -/
def messageOf (m : MessageLine) : Message :=
  let turned := m.arrow.isReverse
  let arrow := if turned then m.arrow.reversed else m.arrow
  { source := if turned then m.right else m.left
    target := if turned then m.left else m.right
    label := m.label
    arrow :=
      if m.color.isSome && m.activation.isNone then { arrow with color := m.color } else arrow
    isParallel := m.isParallel
    multicast := m.multicast
    activation := m.activation
    activationColor := if m.activation.isSome then m.color else none }

/-- Appends a message to the innermost open list and counts it. -/
def addMessage (r : Reader) (m : Message) : Reader :=
  { r.add (.message m) with messages := r.messages + 1 }

/-- Handles a line with a meaning. -/
def apply (r : Reader) : Line → Reader
  | .title s => { r with title := some s }
  | .autoNumber a => r.add (.autoNumber a)
  | .boxStart title color => { r with boxes := r.boxes ++ [⟨title, color, []⟩], inBox := true }
  | .boxEnd => { r with inBox := false }
  | .declare d => r.declare d
  | .create code =>
    ((r.mention code).change code fun p => { p with isCreated := true }).add
      (.life { participant := code, kind := .create })
  | .divider label => r.add (.divider label)
  | .delay label => r.add (.delay label)
  | .space size => r.add (.space size)
  | .life kind code color => (r.mention code).add (.life ⟨code, kind, color⟩)
  | .reply label =>
    r.addMessage
      { source := "", target := "", label := label, arrow := Arrow.read "-->", isReturn := true }
  | .note h text =>
    (r.mentionAll h.participants).add
      (.note ⟨h.participants, h.position, text, h.shape, h.color, h.isAcross⟩)
  | .noteStart h => { r.mentionAll h.participants with block := some (.note h, []) }
  | .arrowNote position color text => r.attach ⟨position, text, color⟩
  | .arrowNoteStart position color => { r with block := some (.arrowNote position color, []) }
  | .reference participants color text =>
    (r.mentionAll participants).add (.reference ⟨participants, text, color⟩)
  | .referenceStart participants color =>
    { r.mentionAll participants with block := some (.reference participants color, []) }
  | .fragmentStart kind color label => r.openFragment kind color label
  | .fragmentElse condition => r.splitFragment condition
  | .fragmentEnd => r.closeFragment
  | .border m => r.addBorder m
  | .message m =>
    (((r.mention m.left).mention m.right).mentionAll m.multicast).addMessage (messageOf m)
  | .faulty e => { r with fault := r.fault.or (some e) }

/-- Handles a line outside of blocks. -/
def readLine (r : Reader) (s : List Char) : Reader :=
  if Line.hidesFootbox.reads s then { r with hideFootbox := true }
  else if s.isEmpty || Line.isDisplay.begins s then r
  else
    match Line.read? s with
    | some line => r.apply line
    | none => r

/-- Handles a line. -/
def step (r : Reader) (line : SourceLine) : Reader :=
  match r.block with
  | some (b, lines) =>
    if Line.endsBlock.reads line.text then r.closeBlock b (Label.dedent lines)
    else { r with block := some (b, lines ++ [line.raw]) }
  | none => r.readLine line.text

/-- Closes the given open fragments around the elements of the innermost list. -/
def unwind : List OpenFragment → List Element → List Element
  | [], elements => elements
  | f :: rest, elements => unwind rest (f.before ++ [OpenFragment.close f elements])

mutual

/-- Puts notes at the messages of an element.  The second argument is the number of messages
before the element; the result holds the number of messages up to its end. -/
def annotate (notes : List (Nat × ArrowNote)) (n : Nat) : Element → Element × Nat
  | .message m => (.message { m with note := notes.lookup n }, n + 1)
  | .fragment ⟨kind, label, color, sections⟩ =>
    let (sections, n) := annotateSections notes n sections
    (.fragment ⟨kind, label, color, sections⟩, n)
  | e => (e, n)

/-- Puts notes at the messages of the elements of sections. -/
def annotateSections (notes : List (Nat × ArrowNote)) (n : Nat) :
    List (Section Element) → List (Section Element) × Nat
  | [] => ([], n)
  | ⟨condition, elements⟩ :: rest =>
    let (elements, n) := annotateAll notes n elements
    let (rest, n) := annotateSections notes n rest
    (⟨condition, elements⟩ :: rest, n)

/-- Puts notes at the messages of elements. -/
def annotateAll (notes : List (Nat × ArrowNote)) (n : Nat) :
    List Element → List Element × Nat
  | [] => ([], n)
  | e :: rest =>
    let (e, n) := annotate notes n e
    let (rest, n) := annotateAll notes n rest
    (e :: rest, n)

end

/-- The diagram that was read. -/
def finish (r : Reader) : Diagram :=
  { title := r.title
    hideFootbox := r.hideFootbox
    participants := r.participants
    elements := (annotateAll r.arrowNotes 0 (unwind r.fragments r.elements)).1
    boxes := r.boxes }

end Reader

/-- The sequence diagram of a text, unless a number in it cannot be read. -/
def Diagram.read (text : String) : Except NumberError Diagram :=
  let r : Reader := (Source.lines text).foldl Reader.step {}
  Fault.check r.fault r.finish

end Sequence
end UmlDraw
