/-
# Reading state diagrams

`Reader` is the machine that reads a diagram line by line; it remembers which composite states are
open.  Elements are made when they are named first, and a later declaration adds what was not known.
An element belongs to the composite state in which it was placed first.

Marks such as the initial one have no name of their own.  Their codes are made from the scope in
which they are written, so the same mark in two scopes gives two elements.
-/
import UmlDraw.Source.Label
import UmlDraw.Source.Line
import UmlDraw.State.Line

namespace UmlDraw
namespace State

namespace Diagram

/-- The diagram with the element that a name stands for.  If there is one, a kind replaces a mere
state, and a label replaces the code. -/
def mention (d : Diagram) (code display : String) (kind : ElementKind) : Diagram :=
  { d with
    elements :=
      if d.elements.contains code then
        d.elements.modify code fun e =>
          { e with
            kind := if e.kind = .state then kind else e.kind
            display := if display ≠ code ∧ e.display = e.code then display else e.display }
      else d.elements.insert code { code := code, display := display, kind := kind } }

/-- Changes an element. -/
def change (d : Diagram) (code : String) (f : Element → Element) : Diagram :=
  { d with elements := d.elements.modify code f }

/-- Puts an element into the open part of a composite state, unless another one holds it. -/
def adopt (d : Diagram) (parent code : String) : Diagram :=
  match d.elements.get? code with
  | none => d
  | some e =>
    if e.parent.isNone || e.parent == some parent then
      (d.change code fun e => { e with parent := some parent }).change parent fun p =>
        { p with contents := p.contents.addMember code }
    else d

end Diagram

/-- The state between two lines. -/
structure Reader where
  /-- The diagram so far. -/
  diagram : Diagram := {}
  /-- The codes of the open composite states, innermost first. -/
  stack : List String := []
  /-- An open note with its lines so far. -/
  note : Option (Note × List (List Char)) := none

namespace Reader

/-- The innermost open composite state. -/
def parent? (r : Reader) : Option Element :=
  r.stack.head?.bind r.diagram.elements.get?

/-- The name of the scope in which a line is written. -/
def scope (r : Reader) : String :=
  match r.parent? with
  | none => "__top__"
  | some p => p.scope

/-- Puts an element into the innermost open composite state.  A state that is open itself stays
where it is. -/
def place (r : Reader) (code : String) : Reader :=
  match r.stack with
  | [] => r
  | parent :: outer =>
    if (parent :: outer).contains code then r
    else { r with diagram := r.diagram.adopt parent code }

/-- Makes an element, unless it is known, and puts it into the innermost open composite state. -/
def mention (r : Reader) (code display : String) (kind : ElementKind) : Reader :=
  { r with diagram := r.diagram.mention code display kind }.place code

/-- The code of a mark. -/
def markCode (word scope : String) : String :=
  "__" ++ word ++ "_" ++ scope ++ "__"

/-- The word, the label and the kind of the mark for a history. -/
def historyMark (deep : Bool) : String × String × ElementKind :=
  if deep then ("deephistory", "H*", .deepHistory) else ("history", "H", .history)

/-- Makes the element that an end of a transition speaks of; the second result is its code. -/
def resolve (r : Reader) (isSource : Bool) : EndPoint → Reader × String
  | .terminal =>
    let code := markCode (if isSource then "initial" else "final") r.scope
    (r.mention code "[*]" (if isSource then .initial else .final), code)
  | .history deep =>
    let (word, display, kind) := historyMark deep
    let code := markCode word r.scope
    (r.mention code display kind, code)
  | .historyOf owner deep =>
    let (word, display, kind) := historyMark deep
    let code := markCode word owner
    let d := (r.diagram.mention code display kind).mention owner owner .state
    ({ r with diagram := d.adopt owner code }, code)
  | .bar code => (r.mention code code .synchroBar, code)
  | .state code => (r.mention code code .state, code)

/-- Changes an element. -/
def change (r : Reader) (code : String) (f : Element → Element) : Reader :=
  { r with diagram := r.diagram.change code f }

/-- An element with what is written about it at an end of a transition. -/
def annotate (m : Mention) (e : Element) : Element :=
  let e :=
    match m.stereotype with
    | none => e
    | some s =>
      match ElementKind.ofStereotype? s with
      | some kind => { e with kind := kind }
      | none => e.addStereotype s
  { e with color := e.color.or m.color }

/-- Appends a transition to the diagram and to the place where it is written. -/
def addTransition (r : Reader) (t : Transition) : Reader :=
  let r := { r with diagram := { r.diagram with transitions := r.diagram.transitions ++ [t] } }
  match r.stack with
  | [] => r
  | parent :: _ => r.change parent fun p => { p with contents := p.contents.addTransition t }

/-- Handles a transition. -/
def connect (r : Reader) (source target : Mention) (head : TransitionHead) : Reader :=
  let (r, sourceCode) := r.resolve true source.point
  let (r, targetCode) := r.resolve false target.point
  ((r.change sourceCode (annotate source)).change targetCode (annotate target)).addTransition
    { source := sourceCode, target := targetCode, label := head.label, direction := head.direction
      stroke := head.stroke, crossStart := head.crossStart, circleEnd := head.circleEnd
      length := head.length }

/-- An element with what a declaration adds. -/
def decorate (d : Declaration) (e : Element) : Element :=
  let e := { e with
    color := d.color.or e.color
    border := ⟨d.border.color.or e.border.color, d.border.style.or e.border.style⟩ }
  match d.stereotype with
  | none => e
  | some s => if (ElementKind.ofStereotype? s).isSome then e else e.addStereotype s

/-- Declares a state. -/
def declare (r : Reader) (d : Declaration) (descriptions : List String) : Reader :=
  let kind := (d.stereotype.bind ElementKind.ofStereotype?).getD .state
  let diagram := r.diagram.mention d.name.code d.name.display kind
  ({ r with diagram := diagram }.change d.name.code fun e =>
    let e := decorate d e
    { e with descriptions := e.descriptions ++ descriptions }).place d.name.code

/-- The note of a line, with the last transition if it speaks of one. -/
def settle (r : Reader) (n : Note) : Note :=
  match n.target with
  | .link _ =>
    let count := r.diagram.transitions.length
    { n with target := .link (if count = 0 then none else some (count - 1)) }
  | _ => n

/-- Appends a note. -/
def addNote (r : Reader) (n : Note) : Reader :=
  { r with diagram := { r.diagram with notes := r.diagram.notes ++ [n] } }

/-- Starts a new region in the innermost open composite state. -/
def divide (r : Reader) (s : Separator) : Reader :=
  match r.stack with
  | [] => r
  | parent :: _ => r.change parent fun p => { p with contents := p.contents.divide s }

/-- Handles a line with a meaning. -/
def apply (r : Reader) : Line → Reader
  | .title s => { r with diagram := { r.diagram with title := some s } }
  | .direction b => { r with diagram := { r.diagram with leftToRight := b } }
  | .hideEmpty => { r with diagram := { r.diagram with hideEmpty := true } }
  | .nothing => r
  | .composite d =>
    let r := r.declare d []
    { r with stack := d.name.code :: r.stack }
  | .blockEnd => { r with stack := r.stack.tail }
  | .separator s => r.divide s
  | .declare d description => r.declare d description.toList
  | .note (.complete n) => r.addNote (r.settle n)
  | .note (.start n) => { r with note := some (r.settle n, []) }
  | .transition source target head => r.connect source target head
  | .describe name text =>
    ({ r with diagram := r.diagram.mention name.code name.display .state }.change name.code
      fun e => { e with descriptions := e.descriptions ++ [text] }).place name.code

/-- Handles a line. -/
def step (r : Reader) (line : SourceLine) : Reader :=
  match r.note with
  | some (n, lines) =>
    if Token.endNote.reads line.text then
      { r with note := none }.addNote { n with text := Label.dedent lines }
    else { r with note := some (n, lines ++ [line.raw]) }
  | none =>
    if line.text.isEmpty then r
    else
      match Line.read? (!r.stack.isEmpty) line.text with
      | some l => r.apply l
      | none => r

end Reader

/-- The diagram of a text. -/
def Diagram.read (text : String) : Diagram :=
  ((Source.lines text).foldl Reader.step {}).diagram

end State
end UmlDraw
