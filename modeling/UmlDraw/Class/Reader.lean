/-
# Reading a class diagram

`Reader` is the machine that reads a class diagram line by line.  Packages and groups are open
blocks of a `Nesting`.  A body or a note that goes on over several lines is kept aside; the entity
of a body is declared only when the body ends.  A keyword that stands for nothing is kept as the
fault of the reader.
-/
import UmlDraw.Class.Line
import UmlDraw.Data.Fault
import UmlDraw.Source.Line

namespace UmlDraw
namespace Class

/-- What goes on over several lines. -/
inductive OpenBody where
  /-- The body of an entity. -/
  | members (e : Entity)
  /-- The body of a map. -/
  | entries (e : Entity)
  /-- The body of a document, with the number of its open brackets and its lines so far. -/
  | document (e : Entity) (depth : Int) (lines : List (List Char))
  /-- A note, with its lines so far. -/
  | note (n : Note) (lines : List (List Char))

/-- The state between two lines. -/
structure Reader where
  title : Option String := none
  /-- The entities so far. -/
  entities : Keyed Entity := Keyed.empty
  /-- The links so far. -/
  links : List Link := []
  /-- The notes so far. -/
  notes : List Note := []
  /-- The packages and groups so far. -/
  nesting : Nesting PackageHead := {}
  /-- What is hidden so far. -/
  hidden : Keyed (List Hidden) := Keyed.empty
  /-- The codes that are not drawn. -/
  removed : List String := []
  /-- The codes of free notes so far. -/
  noteCodes : List String := []
  /-- What goes on over several lines. -/
  body : Option OpenBody := none
  /-- Why the text cannot be read, if it cannot. -/
  fault : Option UnknownKeyword := none

namespace Reader

/-- Makes an entity with a code, if there is none. -/
def create (r : Reader) (code : String) : Reader :=
  if r.entities.contains code then r
  else { r with entities := r.entities.insert code { code := code, display := code } }

/-- Makes an entity for a code that a line names, unless the code belongs to a free note. -/
def mention (r : Reader) (code : String) : Reader :=
  if r.noteCodes.contains code then r else r.create code

/-- Declares an entity: it takes the place of an entity with its code and takes over its members,
and it belongs to the innermost package and group. -/
def declare (r : Reader) (e : Entity) : Reader :=
  let before := ((r.entities.get? e.code).map Entity.members).getD []
  let e :=
    { e with
      members := before ++ e.members, packagePath := r.nesting.path?.or e.packagePath }
  { r with
    entities := r.entities.insert e.code e
    nesting := (r.nesting.enterFolder e.code).enterTogether fun codes => codes ++ [e.code] }

/-- Starts the body of an entity. -/
def openBody (r : Reader) (e : Entity) : Reader :=
  let body :=
    match e.kind with
    | .map => OpenBody.entries e
    | .json => OpenBody.document e 1 []
    | _ => OpenBody.members e
  { r with body := some body }

/-- Ends the body of an entity. -/
def closeBody (r : Reader) (e : Entity) : Reader :=
  declare { r with body := none } e

/-- Hides or shows some members of an entity. -/
def display (r : Reader) (isHide : Bool) (key : String) (what : Hidden) : Reader :=
  let others := ((r.hidden.get? key).getD []).filter fun h => h != what
  { r with hidden := r.hidden.insert key (if isHide then others ++ [what] else others) }

/-- A note of a line, with the entity it speaks of by its code and with the last link. -/
def settle (r : Reader) (n : Note) : Note :=
  match n.target with
  | .shape code => { n with target := .shape (Label.unquote code) }
  | .link _ =>
    { n with target := .link (if r.links.isEmpty then none else some (r.links.length - 1)) }
  | .free _ => n

/-- Makes what a note speaks of. -/
def mentionNote (r : Reader) (n : Note) : Reader :=
  match n.target with
  | .shape code => r.mention code
  | .link _ => r
  | .free code => { r with noteCodes := Nesting.addOnce code r.noteCodes }

/-- Handles a link; it is turned around if only its source has a mark. -/
def addLink (r : Reader) (l : Link) : Reader :=
  let l := l.rename (Label.unquote l.source.code) (Label.unquote l.target.code)
  let r := (r.mention l.source.code).mention l.target.code
  { r with links := r.links ++ [l.oriented] }

/-- Handles a declaration: what it extends is mentioned first. -/
def addDeclaration (r : Reader) (e : Entity) (hasBody : Bool) : Reader :=
  let r := (e.parents ++ e.interfaces).foldl mention r
  if hasBody then r.openBody e else r.declare e

/-- Handles a line with a meaning. -/
def apply (r : Reader) : Line → Reader
  | .title s => { r with title := some s }
  | .display isHide key what => r.display isHide key what
  | .nothing => r
  | .remove code => { r with removed := Nesting.addOnce code r.removed }
  | .together => { r with nesting := r.nesting.openTogether }
  | .package head => { r with nesting := r.nesting.openFolder head head.name }
  | .blockEnd => { r with nesting := r.nesting.close }
  | .note (.complete n) =>
    let n := r.settle n
    let r := r.mentionNote n
    { r with notes := r.notes ++ [n] }
  | .note (.start n) =>
    let n := r.settle n
    { r.mentionNote n with body := some (.note n []) }
  | .declare e hasBody => r.addDeclaration e hasBody
  | .link l => r.addLink l
  | .member code m =>
    let r := r.create code
    { r with
      entities := r.entities.modify code fun e => { e with members := e.members ++ [.member m] } }
  | .faulty k => { r with fault := r.fault.or (some k) }

/-- Handles a line of a class body. -/
def memberLine (r : Reader) (e : Entity) (s : List Char) : Reader :=
  if Line.endsBody s then r.closeBody e
  else { r with body := some (.members { e with members := e.members ++ [Line.bodyLine s] }) }

/-- A link from a map to what one of its rows names. -/
def rowLink (code target : String) : Link where
  source := ⟨code, .none, none, none⟩
  target := ⟨target, .arrow, none, none⟩
  line := .solid
  label := none
  direction := none
  color := none

/-- Handles a line of the body of a map. -/
def entryLine (r : Reader) (e : Entity) (s : List Char) : Reader :=
  if Line.endsBody s then r.closeBody e
  else
    match Line.mapEntry? s with
    | none => r
    | some entry =>
      let body := some (OpenBody.entries { e with entries := e.entries ++ [entry] })
      match entry with
      | .value _ _ => { r with body := body }
      | .link _ target =>
        { r.mention target with body := body, links := r.links ++ [rowLink e.code target] }

/-- The brackets that a line opens, less those it closes. -/
def openBrackets (s : List Char) : Int :=
  (s.count '\x7b' : Int) + s.count '[' - s.count '\x7d' - s.count ']'

/-- Handles a line of the body of a document.  The body ends where no bracket is open any more. -/
def documentLine (r : Reader) (e : Entity) (depth : Int) (lines : List (List Char))
    (s : List Char) : Reader :=
  let depth := depth + openBrackets s
  if depth ≤ 0 then
    let tail := if s.getLast? == some '\x7d' then s.dropLast else s
    let lines := if Chars.isBlankText tail then lines else lines ++ [tail]
    let text := '\x7b' :: Chars.join ['\n'] lines ++ ['\x7d']
    r.closeBody { e with document := some (Document.read text) }
  else { r with body := some (.document e depth (lines ++ [s])) }

/-- Handles a line outside of bodies. -/
def readLine (r : Reader) (s : List Char) : Reader :=
  match Line.read? s with
  | some line => r.apply line
  | none => r

/-- Handles a line.  Blank lines count in notes only. -/
def step (r : Reader) (line : SourceLine) : Reader :=
  match r.body with
  | some (.note n lines) =>
    if Token.endNote.reads line.text then
      { r with notes := r.notes ++ [{ n with text := Label.dedent lines }], body := none }
    else { r with body := some (.note n (lines ++ [line.raw])) }
  | some (.members e) => if line.text.isEmpty then r else r.memberLine e line.text
  | some (.entries e) => if line.text.isEmpty then r else r.entryLine e line.text
  | some (.document e depth lines) =>
    if line.text.isEmpty then r else r.documentLine e depth lines line.text
  | none => if line.text.isEmpty then r else r.readLine line.text

/-- The diagram that was read. -/
def finish (r : Reader) : Diagram :=
  { title := r.title, entities := r.entities, links := r.links
    packages := r.nesting.allFolders, notes := r.notes, groups := r.nesting.groups
    hidden := r.hidden, removed := r.removed }

end Reader

/-- The class diagram of a text, unless a keyword in it stands for nothing. -/
def Diagram.read (text : String) : Except UnknownKeyword Diagram :=
  let r : Reader := (Source.lines text).foldl Reader.step {}
  Fault.check r.fault r.finish

end Class
end UmlDraw
