/-
# Conversion

`Registry.convert` turns a diagram text into a drawing.  The cells of the drawing lie in a group
that carries the text, so that `Registry.regenerate` can draw it again from the drawing alone.
-/
import UmlDraw.Conversion.Registry

namespace UmlDraw

/-- Why a text cannot be converted. -/
inductive ConversionError where
  /-- No dialect recognises the text; these are known. -/
  | unknownDialect (supported : List String)
  /-- A drawing carries no text. -/
  | sourceNotFound (place : String)
  /-- A cell or the group has no id. -/
  | drawing (e : DrawingError)
  /-- The name of a start mark is not written as a pattern. -/
  | mark (e : Pattern.Error)
  /-- The text is recognised, but cannot be drawn. -/
  | diagram (e : DiagramError)
deriving DecidableEq

/-- The wording of an error, if it is one that the program speaks of. -/
def ConversionError.message? : ConversionError → Option String
  | unknownDialect supported =>
    some ("Unable to detect PlantUML diagram type. Supported types: " ++ Text.join ", " supported)
  | sourceNotFound place => some ("No PlantUML source found in " ++ place)
  | drawing e => some e.message
  | mark _ => none
  | diagram _ => none

/-- How a text is converted. -/
structure ConversionOptions where
  /-- The drawing is a whole document; else it is the elements only. -/
  inDocument : Bool := true
  /-- The cells lie in a group that carries the text. -/
  inGroup : Bool := true
  /-- The id of the group; a missing or empty one stands for the usual id. -/
  groupId : Option String := none
  /-- The name of the page. -/
  name : String := "PlantUML Import"
deriving DecidableEq, Repr

namespace ConversionOptions

/-- The usual id of a group. -/
def defaultGroupId : String := "puml-grp-1"

/-- The id that is asked for. -/
def givenGroupId? (o : ConversionOptions) : Option String :=
  o.groupId.filter fun id => !id.isEmpty

/-- The id of the group. -/
def group (o : ConversionOptions) : String :=
  o.givenGroupId?.getD defaultGroupId

/-- The id of the cell in which the drawing lies. -/
def parent (o : ConversionOptions) : String :=
  if o.inGroup then o.group else "1"

end ConversionOptions

/-- A drawing, with the name of the dialect of its text. -/
structure Conversion where
  dialect : String
  xml : String
deriving DecidableEq, Repr

/-- The room in a group behind and below the cells. -/
def groupMargin : Number := 20

/-- The number, if it can be written. -/
def writable (n : Number) : Except ConversionError Number :=
  Fault.check (n.textFault?.map fun e => .diagram (.number e)) n

/-- The elements of a drawing; in a group that encloses the cells and carries the text, if one is
asked for. -/
def grouped (o : ConversionOptions) (source : String) (cells : List Cell) :
    Except ConversionError String := do
  let body ← (Cell.writeAll cells).mapError fun e => .diagram (.number e)
  if o.inGroup then
    let (width, height) := Cell.extent cells o.parent
    let width ← writable (width + groupMargin)
    let height ← writable (height + groupMargin)
    (Document.group o.group source body width height).mapError .drawing
  else pure body

namespace Registry

/-- The drawing of a text. -/
def convert (r : Registry) (source : String) (o : ConversionOptions) :
    Except ConversionError Conversion := do
  match ← (r.detect? source).mapError .mark with
  | none => .error (.unknownDialect r.keys)
  | some (key, handler) =>
    let cells ← (handler.draw source o.parent).mapError .diagram
    let body ← grouped o source cells
    pure ⟨key, if o.inDocument then Document.wrap body o.name else body⟩

/-- Draws a text in place of an earlier drawing: a new text if one is given and not empty, else the
text that the drawing carries.  The group keeps its id unless another one is asked for. -/
def regenerate (r : Registry) (xml : String) (source : Option String) (o : ConversionOptions) :
    Except ConversionError Conversion :=
  match (source.filter fun s => !s.isEmpty).or (Document.source? xml) with
  | none => .error (.sourceNotFound "the provided XML")
  | some text => r.convert text { o with groupId := o.givenGroupId?.or (Document.groupId? xml) }

end Registry
end UmlDraw
