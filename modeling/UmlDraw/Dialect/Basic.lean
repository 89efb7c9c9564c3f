/-
# The dialects

A diagram text is written in one of seven dialects.  This file says how each is named, marked,
recognised and drawn.  A text that is recognised is drawn unless a keyword in it stands for nothing,
or a number has no value where one is needed.
-/
import UmlDraw.Activity.Drawing
import UmlDraw.Activity.Reader
import UmlDraw.Class.Drawing
import UmlDraw.Class.Reader
import UmlDraw.Description.Drawing
import UmlDraw.Description.Reader
import UmlDraw.Dialect.Evidence
import UmlDraw.Sequence.Drawing
import UmlDraw.Sequence.Reader
import UmlDraw.State.Drawing
import UmlDraw.State.Reader
import UmlDraw.Timing.Drawing
import UmlDraw.Timing.Reader

namespace UmlDraw

/-- Why a diagram text cannot be drawn. -/
inductive DiagramError where
  /-- A time, a place or a value cannot be computed, read or written. -/
  | number (e : NumberError)
  /-- A keyword stands for nothing. -/
  | keyword (k : UnknownKeyword)
deriving DecidableEq, Repr

/-- The dialects. -/
inductive Dialect where
  | classes
  | useCases
  | components
  | timing
  | states
  | activity
  | sequence
deriving DecidableEq, Repr

namespace Dialect

/-- All dialects, in the order in which a text is tried.  The signs of a sequence diagram are found
in many other texts, so it comes last. -/
def all : List Dialect :=
  [classes, useCases, components, timing, states, activity, sequence]

/-- The name of a dialect. -/
def key : Dialect → String
  | classes => "class"
  | useCases => "usecase"
  | components => "component"
  | timing => "timing"
  | states => "state"
  | activity => "activity"
  | sequence => "sequence"

/-- The dialect with a name. -/
def ofKey? (key : String) : Option Dialect :=
  all.find? fun d => d.key == key

/-- The names that a start mark may have. -/
def markers : Dialect → List String
  | components => ["component", "deployment"]
  | d => [d.key]

/-- The text has enough signs of the dialect. -/
def recognizes : Dialect → String → Bool
  | classes => Evidence.classes
  | useCases => Evidence.useCases
  | components => Evidence.components
  | timing => Evidence.timing
  | states => Evidence.states
  | activity => Evidence.activity
  | sequence => Evidence.sequence

/-- The cells that draw a text in the given parent. -/
def draw (d : Dialect) (text parent : String) : Except DiagramError (List Cell) :=
  match d with
  | classes => do
    let diagram ← (Class.Diagram.read text).mapError .keyword
    pure (diagram.draw parent)
  | useCases => do
    let diagram ← (Description.Diagram.read .useCases text).mapError .keyword
    pure (diagram.draw .useCases parent)
  | components => do
    let diagram ← (Description.Diagram.read .components text).mapError .keyword
    pure (diagram.draw .components parent)
  | timing => do
    let diagram ← (Timing.Diagram.read text).mapError .number
    (diagram.draw parent).mapError .number
  | states => pure ((State.Diagram.read text).draw parent)
  | activity => pure ((Activity.Diagram.read text).draw parent)
  | sequence => do
    let diagram ← (Sequence.Diagram.read text).mapError .number
    (diagram.draw parent).mapError .number

end Dialect
end UmlDraw
