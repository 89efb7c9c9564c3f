/-
# The registry

A registry knows the handlers of dialects by name and in order.  At first it holds the seven
dialects of the library; further ones may be added, and any may be replaced.  `Registry.detect?`
finds the dialect of a text: start marks count before signs, and earlier dialects before later ones.
-/
import UmlDraw.Dialect.Basic
import UmlDraw.Text.Quoted

namespace UmlDraw

/-- What is known of a dialect. -/
structure Handler where
  /-- The names that a start mark may have. -/
  markers : List String
  /-- The text looks like one of the dialect. -/
  recognizes : String → Bool
  /-- The cells that draw a text in the given parent. -/
  draw : String → String → Except DiagramError (List Cell)

/-- The handler of a dialect of the library. -/
def Dialect.handler (d : Dialect) : Handler :=
  ⟨d.markers, d.recognizes, d.draw⟩

/-- A handler that is offered to a registry, with a type of diagrams between reading and drawing.
Its parts may be missing. -/
structure Offer (α : Type) where
  markers : List String
  recognizes : Option (String → Bool)
  read : Option (String → Except DiagramError α)
  draw : Option (α → String → Except DiagramError (List Cell))

/-- A part that is missing from an offer. -/
inductive MissingPart where
  | recognizes
  | read
  | draw
deriving DecidableEq, Repr

namespace MissingPart

/-- The word for a part. -/
def word : MissingPart → String
  | recognizes => "detect"
  | read => "parse"
  | draw => "emit"

/-- What is said about an offer for a name without this part. -/
def message (key : String) (p : MissingPart) : String :=
  "Handler for " ++ Quoted.encode key ++ " must provide a callable " ++ p.word

end MissingPart

/-- The handler that is offered, or the first part that is missing. -/
def Offer.handler {α : Type} (o : Offer α) : Except MissingPart Handler :=
  match o.recognizes, o.read, o.draw with
  | none, _, _ => .error .recognizes
  | _, none, _ => .error .read
  | _, _, none => .error .draw
  | some recognizes, some read, some draw =>
    .ok ⟨o.markers, recognizes, fun text parent => do
      let diagram ← read text
      draw diagram parent⟩

/-- The handlers by name, in the order in which they are tried. -/
abbrev Registry := Keyed Handler

namespace Registry

/-- The registry with the dialects of the library. -/
def standard : Registry :=
  Keyed.ofList (Dialect.all.map fun d => (d.key, d.handler))

/-- Adds a handler behind the others, or replaces the one of the same name in its place. -/
def register {α : Type} (r : Registry) (key : String) (o : Offer α) : Except MissingPart Registry :=
  o.handler.map fun h => r.insert key h

/-- The text has a start mark of the handler. -/
def isMarked (text : String) (h : Handler) : Except Pattern.Error Bool :=
  Source.hasStartMark text h.markers

/-- The first handler with a start mark in the text, with its name. -/
def marked? (r : Registry) (text : String) : Except Pattern.Error (Option (String × Handler)) :=
  r.entries.findM? fun (_, h) => isMarked text h

/-- The first handler that recognises the text, with its name. -/
def recognizing? (r : Registry) (text : String) : Option (String × Handler) :=
  r.entries.find? fun (_, h) => h.recognizes text

/-- The handler for a text, with its name. -/
def detect? (r : Registry) (text : String) : Except Pattern.Error (Option (String × Handler)) := do
  match ← r.marked? text with
  | some found => pure (some found)
  | none => pure (r.recognizing? text)

end Registry
end UmlDraw
