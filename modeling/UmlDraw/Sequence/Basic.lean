/-
# Sequence diagrams

A sequence diagram is a table of participants and a list of elements in time order: messages,
notes, separators and fragments, which hold elements of their own in sections.
-/
import UmlDraw.Sequence.Arrow

namespace UmlDraw
namespace Sequence

/-- What a participant is drawn as. -/
inductive ParticipantKind where
  | participant
  | actor
  | boundary
  | control
  | entity
  | queue
  | database
  | collections
  /-- A kind written with unusual letters. -/
  | other (spelling : String)
deriving DecidableEq

namespace ParticipantKind

/-- The word for a kind. -/
def name : ParticipantKind → String
  | participant => "participant"
  | actor => "actor"
  | boundary => "boundary"
  | control => "control"
  | entity => "entity"
  | queue => "queue"
  | database => "database"
  | collections => "collections"
  | other s => s

/-- The kinds with a word of their own, in the order in which the words are tried. -/
def all : List ParticipantKind :=
  [participant, actor, boundary, control, entity, queue, database, collections]

/-- The kind that a word in small letters stands for. -/
def ofWord (s : String) : ParticipantKind :=
  (all.find? fun k => k.name == s).getD (other s)

end ParticipantKind

/-- A participant: the owner of a lifeline. -/
structure Participant where
  /-- The name used in messages. -/
  code : String
  /-- The label of the header. -/
  displayName : String
  /-- What the header looks like. -/
  kind : ParticipantKind := .participant
  /-- The color of the header, as it is written. -/
  color : Option String := none
  /-- The stereotype, without its brackets. -/
  stereotype : Option String := none
  /-- An explicit place among the participants; lower ones come first. -/
  order : Option Int := none
  /-- The header starts at the message that creates the participant. -/
  isCreated : Bool := false

/-- A note at a message. -/
structure ArrowNote where
  /-- Where the note stands. -/
  position : Side
  /-- Its text. -/
  text : String
  /-- Its color, as it is written. -/
  color : Option String

/-- A message between two participants.  The head at the end of the arrow lands on the target.  A
return has no ends of its own; they follow from the open activations. -/
structure Message where
  /-- The code of the participant where the arrow starts. -/
  source : String
  /-- The code of the participant where the arrow ends. -/
  target : String
  /-- The label. -/
  label : String := ""
  /-- The arrow. -/
  arrow : Arrow := {}
  /-- A note at the arrow. -/
  note : Option ArrowNote := none
  /-- The message stands in the row of the message before. -/
  isParallel : Bool := false
  /-- The message is a return. -/
  isReturn : Bool := false
  /-- The codes of further targets. -/
  multicast : List String := []
  /-- A shortcut for an activation, as it is written. -/
  activation : Option String := none
  /-- The color of the activation. -/
  activationColor : Option String := none

/-- How a message with one end at the border runs. -/
inductive BorderKind where
  | fromLeft
  | toLeft
  | fromRight
  | toRight
deriving DecidableEq

namespace BorderKind

/-- The name of a kind. -/
def name : BorderKind → String
  | fromLeft => "from_left"
  | toLeft => "to_left"
  | fromRight => "from_right"
  | toRight => "to_right"

/-- The message touches the left border. -/
def isLeft (k : BorderKind) : Bool :=
  k == fromLeft || k == toLeft

/-- The message comes in. -/
def isIncoming (k : BorderKind) : Bool :=
  k == fromLeft || k == fromRight

end BorderKind

/-- A message with one end at the border of the diagram. -/
structure BorderMessage where
  /-- The code of the participant. -/
  participant : String
  /-- The label. -/
  label : String
  /-- The arrow. -/
  arrow : Arrow
  /-- How the message runs. -/
  kind : BorderKind
  /-- The message stands in the row of the message before. -/
  isParallel : Bool
  /-- A shortcut for an activation, as it is written. -/
  activation : Option String

/-- What happens to a lifeline. -/
inductive LifeKind where
  | activate
  | deactivate
  | destroy
  | create
  /-- An event written with unusual letters. -/
  | other (spelling : String)
deriving DecidableEq

namespace LifeKind

/-- The word for an event. -/
def name : LifeKind → String
  | activate => "activate"
  | deactivate => "deactivate"
  | destroy => "destroy"
  | create => "create"
  | other s => s

/-- The event that a word in small letters stands for. -/
def ofWord (s : String) : LifeKind :=
  ([activate, deactivate, destroy].find? fun k => k.name == s).getD (other s)

end LifeKind

/-- An event of a lifeline. -/
structure LifeEvent where
  /-- The code of the participant. -/
  participant : String
  /-- What happens. -/
  kind : LifeKind
  /-- The color of an activation. -/
  color : Option String := none

/-- A note beside or over lifelines. -/
structure Note where
  /-- The codes of the participants. -/
  participants : List String
  /-- Where the note stands. -/
  position : Side
  /-- Its text. -/
  text : String
  /-- The word for its shape. -/
  shape : String
  /-- Its color, as it is written. -/
  color : Option String
  /-- The note spans all lifelines. -/
  isAcross : Bool

/-- A reference to another diagram. -/
structure Reference where
  /-- The codes of the participants. -/
  participants : List String
  /-- Its text. -/
  text : String
  /-- Its color, as it is written. -/
  color : Option String

/-- A directive about the numbers of messages. -/
structure AutoNumber where
  /-- The next number; none keeps the running count. -/
  start : Option Int := some 1
  /-- The distance between numbers. -/
  step : Int := 1
  /-- The form of a number. -/
  format : Option String := none
  /-- Numbering ends. -/
  stop : Bool := false
  /-- Numbering goes on. -/
  resume : Bool := false

/-- A section of a fragment. -/
structure Section (ε : Type) where
  /-- The condition of the section. -/
  condition : String
  /-- Its elements in time order. -/
  elements : List ε

/-- A fragment: a frame around elements, in one or more sections. -/
structure Fragment (ε : Type) where
  /-- The word for its kind. -/
  kind : String
  /-- The label behind the word. -/
  label : String
  /-- Its color, as it is written. -/
  color : Option String
  /-- Its sections; the first one carries the label as condition. -/
  sections : List (Section ε)

/-- An element of a sequence diagram. -/
inductive Element where
  | message (m : Message)
  | border (m : BorderMessage)
  | life (e : LifeEvent)
  | fragment (f : Fragment Element)
  | note (n : Note)
  | divider (label : String)
  | delay (label : String)
  | space (size : Option Nat)
  | reference (r : Reference)
  | autoNumber (a : AutoNumber)

/-- A box around headers of participants. -/
structure Box where
  /-- The title. -/
  title : String
  /-- The color, as it is written. -/
  color : Option String
  /-- The codes of the participants, in order of first declaration in the box. -/
  participants : List String

/-- A sequence diagram. -/
structure Diagram where
  /-- The title. -/
  title : Option String
  /-- No headers at the lower ends of the lifelines. -/
  hideFootbox : Bool
  /-- The participants in order of first mention. -/
  participants : Keyed Participant
  /-- The elements in time order. -/
  elements : List Element
  /-- The boxes. -/
  boxes : List Box

/-- An explicit place comes before a missing one, and a lower before a higher one. -/
def orderLe (a b : Participant) : Bool :=
  match a.order, b.order with
  | some m, some n => m ≤ n
  | some _, none => true
  | none, some _ => false
  | none, none => true

/-- The participants from left to right: by explicit place, then in order of first mention. -/
def Diagram.columns (d : Diagram) : List Participant :=
  d.participants.values.mergeSort orderLe

end Sequence
end UmlDraw
