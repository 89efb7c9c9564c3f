/-
# The rows of an entity

What is written in the header of an entity and in the rows below it, and how much room that takes.
-/
import UmlDraw.Class.Style
import UmlDraw.Source.Label

namespace UmlDraw
namespace Class

/-- A text in double angle brackets. -/
def inAngles (s : String) : String :=
  "<<" ++ s ++ ">>"

namespace Entity

/-- The lines of the header. -/
def header (e : Entity) : List String :=
  let name :=
    match e.generics.filter fun g => !g.isEmpty with
    | some g => e.display ++ "<" ++ g ++ ">"
    | none => e.display
  e.kind.banner?.toList.map inAngles ++ e.stereotypes.map inAngles ++ [name]

end Entity

/-- One row below the header. -/
structure Row where
  text : String
  height : Nat
  style : Style
  /-- The right half of a row of a map. -/
  second : Option String := none

namespace Row

/-- The height of a row. -/
def usualHeight : Nat := 26

/-- The text whose width counts. -/
def wholeText (r : Row) : String :=
  match r.second with
  | some s => r.text ++ "  " ++ s
  | none => r.text

end Row

namespace BodyLine

/-- The member of a line. -/
def member? : BodyLine → Option Member
  | member m => some m
  | separator _ _ => none

/-- The line is shown although the given things are hidden. -/
def isShown (hidden : List Hidden) : BodyLine → Bool
  | separator _ _ => !hidden.contains .members
  | member m =>
    !hidden.contains .members && !(hidden.contains .methods && m.isMethod) &&
      !(hidden.contains .fields && !m.isMethod)

end BodyLine

namespace Diagram

/-- What is hidden under a key. -/
def hiddenAt (d : Diagram) (key : String) : List Hidden :=
  (d.hidden.get? key).getD []

/-- What is hidden of an entity: of all, of its code and of its stereotypes. -/
def hiddenOf (d : Diagram) (e : Entity) : List Hidden :=
  ("*" :: e.code :: e.stereotypes.map inAngles).flatMap d.hiddenAt

/-- The lines of the body of an entity that are shown. -/
def shownLines (d : Diagram) (e : Entity) : List BodyLine :=
  let hidden := d.hiddenOf e
  let members := e.members.filterMap BodyLine.member?
  if hidden.contains .emptyMembers && members.isEmpty then []
  else
    let noMethods := hidden.contains .emptyMethods && !members.any Member.isMethod
    let noFields := hidden.contains .emptyFields && members.all Member.isMethod
    let hidden :=
      hidden ++ (if noMethods then [.methods] else []) ++ (if noFields then [.fields] else [])
    e.members.filter (BodyLine.isShown hidden)

/-- The font of a member. -/
def memberFont (m : Member) : Nat :=
  if m.isStatic then 4 else if m.isAbstract then 2 else 0

/-- The row of a line of the body. -/
def lineRow (e : Entity) : BodyLine → Row
  | .separator label style => { text := label, height := 8, style := separatorStyle style }
  | .member m =>
    if e.kind = .object then
      { text := m.raw, height := Row.usualHeight, style := rowStyle 0 0 false }
    else
      { text := m.label, height := Row.usualHeight, style := rowStyle (memberFont m) 0 false }

/-- The row of an entry of a map. -/
def entryRow : MapEntry → Row
  | .value key value =>
    { text := key, height := Row.usualHeight, style := rowStyle 0 0 true, second := some value }
  | .link key _ =>
    { text := key, height := Row.usualHeight, style := rowStyle 0 0 true, second := some "" }

/-- The rows of an entity. -/
def rows (d : Diagram) (e : Entity) : List Row :=
  match e.kind with
  | .map => e.entries.map entryRow
  | .json =>
    ((e.document.map (Document.rows 0)).getD []).map fun (text, depth) =>
      { text := text, height := Row.usualHeight, style := rowStyle 0 (depth * 12) false }
  | _ => (d.shownLines e).map (lineRow e)

end Diagram

/-- The width of a text with room at both sides. -/
def textWidth (text : String) : Nat :=
  Label.longest (Label.lines text) * 7 + 16

/-- How much room an entity takes. -/
structure Size where
  width : Nat
  height : Nat
  /-- The height of the header. -/
  header : Nat
deriving DecidableEq, Repr

namespace Diagram

/-- An entity without rows has no empty row either. -/
def hidesEmpty (d : Diagram) (e : Entity) : Bool :=
  let hidden := d.hiddenAt "*" ++ d.hiddenAt e.code
  hidden.contains .emptyMembers || hidden.contains .members || e.kind == .object

/-- How much room an entity takes. -/
def size (d : Diagram) (e : Entity) : Size :=
  if e.kind.isSmall then ⟨20, 20, 0⟩
  else
    let lines := e.header
    let header := 26 + (lines.length - 1) * 18
    let rows := d.rows e
    let texts := lines ++ rows.map Row.wholeText
    let extra := if rows.isEmpty && !d.hidesEmpty e then Row.usualHeight else 0
    ⟨(texts.map textWidth).foldl max 160,
      (rows.map Row.height).foldl (· + ·) header + extra, header⟩

end Diagram
end Class
end UmlDraw
