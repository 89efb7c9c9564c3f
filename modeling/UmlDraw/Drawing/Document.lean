/-
# Documents

The cells of a drawing are wrapped in a group, which carries the diagram text they were drawn
from, and in a document.  `Document.source?` reads the diagram text back, and `Document.groupId?`
the id of the group.
-/
import UmlDraw.Drawing.Cell
import UmlDraw.Text.Scan

namespace UmlDraw
namespace Document

/-- The id with a given number: a stem, a hyphen and the number. -/
def numberedId (stem : String) (n : Nat) : String :=
  stem ++ "-" ++ String.ofList (Decimal.digits n)

/-- The first ids of a stem. -/
def numberedIds (stem : String) (count : Nat) : List String :=
  (List.range count).map fun n => numberedId stem (n + 1)

/-- The group that carries a diagram text, followed by the elements of the cells in it. -/
def group (id source cells : String) (width height : Number) : Except DrawingError String :=
  if id.isEmpty then .error .groupWithoutId
  else .ok (
    "<UserObject label=\"\" " ++ attr "plantUml" source ++ " " ++ attr "id" id ++ ">\n" ++
    "  <mxCell style=\"group;editable=0;connectable=0;\" vertex=\"1\" parent=\"1\">\n" ++
    "    <mxGeometry x=\"0\" y=\"0\" " ++ numberAttr "width" width ++ " " ++
      numberAttr "height" height ++ " as=\"geometry\"/>\n" ++
    "  </mxCell>\n" ++
    "</UserObject>\n" ++
    cells)

/-- The document around the elements of a drawing. -/
def wrap (elements name : String) : String :=
  "<mxfile>\n" ++
  "  <diagram " ++ attr "name" name ++ ">\n" ++
  "    <mxGraphModel>\n" ++
  "      <root>\n" ++
  "        <mxCell id=\"0\"/>\n" ++
  "        <mxCell id=\"1\" parent=\"0\"/>\n" ++
  elements ++ "\n" ++
  "      </root>\n" ++
  "    </mxGraphModel>\n" ++
  "  </diagram>\n" ++
  "</mxfile>"

/-- The attribute that carries a diagram text. -/
def sourceAttribute : Scan String := do
  Scan.text "plantUml=\""
  let written ← Scan.many (· != '"')
  let _ ← Scan.char '"'
  pure written

/-- The diagram text that a drawing was made from, if it carries one that is not empty.  Only the
first attribute counts. -/
def source? (xml : String) : Option String :=
  match sourceAttribute.search xml.toList with
  | none => none
  | some (_, written, _) => if written.isEmpty then none else some (unescape written)

/-- The id of a group: the first non-empty attribute of that name in the opening tag.  The name
must not continue a word. -/
def groupIdAttribute : Scan String := do
  Scan.text "<UserObject"
  Scan.wordEnd
  let skipped ← Scan.few (· != '>')
  Scan.require (match skipped.toList.getLast? with
    | none => true
    | some c => !Letter.isWord c)
  Scan.text "id=\""
  let written ← Scan.many1 (· != '"')
  let _ ← Scan.char '"'
  pure written

/-- The id of the first group in a drawing that has one. -/
def groupId? (xml : String) : Option String :=
  (groupIdAttribute.search xml.toList).map fun (_, written, _) => unescape written

end Document
end UmlDraw
