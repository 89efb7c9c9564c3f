/-
# State diagrams

A state diagram is a table of elements, which are states and marks such as the initial one, and a
list of transitions between them.  A composite state holds elements of its own; it holds them
either directly or in *regions* that are active at the same time.  Every element remembers the
composite state that holds it.

What is declared inside a composite state goes into its last region, the one that is still open.
-/
import UmlDraw.Data.Keyed
import UmlDraw.Relation.Note
import UmlDraw.Text.Smalls

namespace UmlDraw
namespace State

/-- What an element is. -/
inductive ElementKind where
  | state
  | initial
  | final
  | choice
  /-- The bar of a fork or a join. -/
  | bar
  | history
  | deepHistory
  | synchroBar
deriving DecidableEq, Repr

namespace ElementKind

/-- The name of a kind. -/
def name : ElementKind → String
  | state => "state"
  | initial => "initial"
  | final => "final"
  | choice => "choice"
  | bar => "fork_join"
  | history => "history"
  | deepHistory => "deep_history"
  | synchroBar => "synchro_bar"

/-- The stereotypes that make an element a mark. -/
def stereotypes : List (String × ElementKind) := [
  ("choice", choice), ("fork", bar), ("join", bar), ("start", initial), ("end", final),
  ("history", history), ("history*", deepHistory)]

/-- The kind that a stereotype in any case stands for, if it makes an element a mark. -/
def ofStereotype? (s : String) : Option ElementKind :=
  stereotypes.lookup (Text.small s)

/-- The text of a written stereotype, without its brackets. -/
def stereotypeText (written : String) : String :=
  let s := Chars.trim written.toList
  String.ofList (Chars.trim ((s.take (s.length - 2)).drop 2))

end ElementKind

/-- How the border of a state is drawn. -/
inductive BorderStyle where
  | dashed
  | dotted
  | bold
  /-- A word without a meaning, in small letters. -/
  | other (spelling : String)
deriving DecidableEq, Repr

namespace BorderStyle

/-- The name of a border style. -/
def name : BorderStyle → String
  | dashed => "dashed"
  | dotted => "dotted"
  | bold => "bold"
  | other s => s

/-- The border style that a word in small letters stands for. -/
def ofWord (s : String) : BorderStyle :=
  ([dashed, dotted, bold].find? fun b => b.name == s).getD (other s)

end BorderStyle

/-- What is written about a border. -/
structure Border where
  color : Option String := none
  style : Option BorderStyle := none
deriving DecidableEq, Repr

namespace Border

/-- The word in the brackets at the front of a text. -/
def word : Scan String := do
  let _ ← Scan.char '['
  let s ← Scan.many1 Letter.isWord
  let _ ← Scan.char ']'
  pure s

/-- A border as it is written: two number signs, a word in brackets and a color, each of which may
be missing. -/
def read (written : String) : Border :=
  let s := (Chars.after? ['#', '#'] written.toList).getD written.toList
  let (style, s) :=
    match word.start s with
    | some (w, rest) => (some (BorderStyle.ofWord (Smalls.ofString w)), rest)
    | none => (none, s)
  { color := if s.isEmpty then none else some (String.ofList s), style := style }

end Border

/-- What is written about the line of a transition. -/
structure Stroke where
  line : Option LineStyle := none
  color : Option String := none
deriving DecidableEq, Repr

namespace Stroke

/-- The words for lines. -/
def words : List (String × LineStyle) := [
  ("dashed", .dashed), ("dotted", .dotted), ("bold", .bold), ("hidden", .hidden),
  ("plain", .solid)]

/-- A line with one more part of its description. -/
def change (t : Stroke) (part : List Char) : Stroke :=
  let s := Chars.trim part
  if s.head? == some '#' then { t with color := some (String.ofList s) }
  else
    match words.lookup (String.ofList (Chars.small s)) with
    | some line => { t with line := some line }
    | none => t

/-- The line that a description with commas between its parts stands for; of several parts of one
kind the last counts. -/
def read (s : String) : Stroke :=
  (Chars.split ',' s.toList).foldl change {}

/-- A line as described twice; the first description counts where it says something. -/
def or (a b : Stroke) : Stroke :=
  ⟨a.line.or b.line, a.color.or b.color⟩

end Stroke

/-- A transition. -/
structure Transition where
  /-- The code of the element where it starts. -/
  source : String
  /-- The code of the element where it ends. -/
  target : String
  label : Option String
  /-- The way it runs. -/
  direction : Option Direction
  stroke : Stroke
  /-- A cross stands at its start. -/
  crossStart : Bool
  /-- A circle stands at its end. -/
  circleEnd : Bool
  /-- The number of dashes. -/
  length : Nat
deriving DecidableEq, Repr

/-- The line that separates two regions. -/
inductive Separator where
  | dashes
  | bars
deriving DecidableEq, Repr

/-- The character that a separator is made of. -/
def Separator.mark : Separator → String
  | dashes => "-"
  | bars => "|"

/-- A region of a composite state. -/
structure Region where
  /-- The separator that made it a region. -/
  separator : Separator
  /-- The codes of the elements in it. -/
  members : List String := []
  /-- The transitions that were written in it. -/
  transitions : List Transition := []
deriving DecidableEq, Repr

/-- What is in a composite state.  A state with regions has at least two of them. -/
inductive Contents where
  /-- Elements and transitions without regions. -/
  | direct (members : List String) (transitions : List Transition)
  /-- Regions; the last one is open. -/
  | concurrent (first : Region) (middle : List Region) (last : Region)
deriving DecidableEq, Repr

namespace Contents

/-- The contents of a state that is not composite. -/
def empty : Contents := direct [] []

instance : Inhabited Contents := ⟨empty⟩

/-- The regions. -/
def regions : Contents → List Region
  | direct _ _ => []
  | concurrent first middle last => first :: middle ++ [last]

/-- The codes of the elements, region by region. -/
def members : Contents → List String
  | direct ms _ => ms
  | concurrent first middle last => (first :: middle ++ [last]).flatMap Region.members

/-- The codes of the elements in the open part. -/
def openMembers : Contents → List String
  | direct ms _ => ms
  | concurrent _ _ last => last.members

/-- Something is in the state: an element, or a separator. -/
def isComposite : Contents → Bool
  | direct ms _ => !ms.isEmpty
  | concurrent _ _ _ => true

/-- Puts an element into the open part, unless it is there. -/
def addMember (code : String) : Contents → Contents
  | direct ms ts => direct (if ms.contains code then ms else ms ++ [code]) ts
  | concurrent first middle last =>
    concurrent first middle
      { last with members := if last.members.contains code then last.members
                             else last.members ++ [code] }

/-- Puts a transition into the open part. -/
def addTransition (t : Transition) : Contents → Contents
  | direct ms ts => direct ms (ts ++ [t])
  | concurrent first middle last =>
    concurrent first middle { last with transitions := last.transitions ++ [t] }

/-- Starts a new region behind a separator; what is there without a region becomes the first
one. -/
def divide (s : Separator) : Contents → Contents
  | direct ms ts => concurrent ⟨s, ms, ts⟩ [] ⟨s, [], []⟩
  | concurrent first middle last => concurrent first (middle ++ [last]) ⟨s, [], []⟩

end Contents

/-- An element. -/
structure Element where
  code : String
  /-- The label. -/
  display : String
  kind : ElementKind := .state
  /-- The color of the inside. -/
  color : Option String := none
  border : Border := {}
  /-- The stereotypes that do not make it a mark. -/
  stereotypes : List String := []
  /-- What is said about the state. -/
  descriptions : List String := []
  contents : Contents := .empty
  /-- The code of the composite state that holds it. -/
  parent : Option String := none
deriving DecidableEq, Repr

namespace Element

/-- The element is a composite state. -/
def isComposite (e : Element) : Bool :=
  e.contents.isComposite

/-- The name of the open part, which the codes of marks in it contain. -/
def scope (e : Element) : String :=
  match e.contents.regions.length with
  | 0 => e.code
  | n + 1 => e.code ++ "_r" ++ String.ofList (Decimal.digits n)

/-- The element with one more stereotype, unless it has it. -/
def addStereotype (e : Element) (s : String) : Element :=
  if e.stereotypes.contains s then e else { e with stereotypes := e.stereotypes ++ [s] }

end Element

/-- A state diagram. -/
structure Diagram where
  title : Option String := none
  /-- The layers run from left to right; else from top to bottom. -/
  leftToRight : Bool := false
  /-- States without descriptions are asked to be drawn without a compartment, as they always
  are. -/
  hideEmpty : Bool := false
  /-- The elements, by code, in order of first mention. -/
  elements : Keyed Element := Keyed.empty
  /-- All transitions, in order. -/
  transitions : List Transition := []
  notes : List Note := []

namespace Diagram

/-- The codes of the elements that no composite state holds. -/
def roots (d : Diagram) : List String :=
  (d.elements.entries.filter fun (_, e) => e.parent.isNone).map Prod.fst

end Diagram
end State
end UmlDraw
