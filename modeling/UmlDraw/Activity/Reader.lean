/-
# Reading an activity diagram

`Reader` is the machine that reads an activity diagram line by line.  It keeps the innermost open
list of instructions and a stack of the open blocks around it; each open block remembers the list
that holds it, as far as it goes.  A line that ends or goes on with a block counts only if that
block is the innermost open one.  A connector line waits for the next instruction of the flow.
-/
import UmlDraw.Activity.Line
import UmlDraw.Source.Line

namespace UmlDraw
namespace Activity

/-- What is known of an open block, its open list of instructions apart. -/
inductive OpenBlock where
  /-- The first branch of a decision. -/
  | firstBranch (c : Choice)
  /-- A further branch of a decision, with the branches before it. -/
  | otherBranch (c : Choice) (first : List Instruction) (others : List (Branch Instruction))
      (condition : String) (label : Option String)
  /-- The last branch of a decision, with the branches before it. -/
  | lastBranch (c : Choice) (first : List Instruction) (others : List (Branch Instruction))
  | loop (l : Loop)
  /-- A switch with its closed cases and the label of the open one; before the first case there is
  none, and what is read there is dropped. -/
  | switch (condition : String) (color : Option String) (cases : List (Branch Instruction))
      (label : Option String)
  /-- A fork or a split with its closed branches. -/
  | fork (isSplit : Bool) (branches : List (Branch Instruction))
  | partition (name : String) (color : Option String)

/-- The cases of a switch with the open one closed. -/
def closeCase (cases : List (Branch Instruction)) (body : List Instruction) :
    Option String → List (Branch Instruction)
  | none => cases
  | some label => cases ++ [{ condition := label, body := body }]

/-- The instruction that an open block becomes with the instructions of its open list. -/
def OpenBlock.close (n : Node) (body : List Instruction) : OpenBlock → Instruction
  | firstBranch c => .choice n c body [] []
  | otherBranch c first others condition label =>
    .choice n c first (others ++ [⟨condition, label, body⟩]) []
  | lastBranch c first others => .choice n c first others body
  | loop l => .loop n l body
  | switch condition color cases label => .switch n condition color (closeCase cases body label)
  | fork isSplit branches => .fork n isSplit (branches ++ [{ body := body }])
  | partition name color => .partition n name color body

/-- An open block in its list. -/
structure Frame where
  /-- The instructions before the block in the list that holds it. -/
  before : List Instruction
  /-- The number and the lane of the block. -/
  node : Node
  /-- The block. -/
  block : OpenBlock

/-- The state between two lines. -/
structure Reader where
  /-- The title. -/
  title : Option String := none
  /-- The lanes so far. -/
  lanes : Keyed Lane := Keyed.empty
  /-- The lane that is open. -/
  lane : Option String := none
  /-- The number of the last instruction. -/
  count : Nat := 0
  /-- The connector that waits for the next instruction, with its number. -/
  pending : Option (Nat × Arrow) := none
  /-- The innermost open list. -/
  body : List Instruction := []
  /-- The open blocks, innermost first. -/
  frames : List Frame := []
  /-- The text that goes on over several lines, with its lines so far. -/
  text : Option (OpenText × List (List Char)) := none

namespace Reader

/-- The waiting connector as an instruction. -/
def pendingSteps (r : Reader) : List Instruction :=
  (r.pending.map fun (id, a) => Instruction.step ⟨id, r.lane⟩ (.arrow a)).toList

/-- The node of the next instruction. -/
def nextNode (r : Reader) : Node :=
  ⟨r.count + 1, r.lane⟩

/-- Appends a step to the innermost list; a waiting connector goes before it, unless the step is a
note. -/
def addStep (r : Reader) (s : Step) : Reader :=
  match s with
  | .note _ => { r with count := r.count + 1, body := r.body ++ [.step r.nextNode s] }
  | _ =>
    { r with
      count := r.count + 1, pending := none
      body := r.body ++ r.pendingSteps ++ [.step r.nextNode s] }

/-- Opens a block in the innermost list; a waiting connector goes before it. -/
def openBlock (r : Reader) (b : OpenBlock) : Reader :=
  { r with
    count := r.count + 1, pending := none, body := []
    frames := ⟨r.body ++ r.pendingSteps, r.nextNode, b⟩ :: r.frames }

/-- Closes the innermost block if a test of it succeeds. -/
def closeBlock (r : Reader) (change : OpenBlock → Option OpenBlock) : Reader :=
  match r.frames with
  | [] => r
  | f :: rest =>
    match change f.block with
    | none => r
    | some b => { r with body := f.before ++ [b.close f.node r.body], frames := rest }

/-- Goes on with the next part of the innermost block if a test of it succeeds; the test gets the
instructions of the part that ends. -/
def nextPart (r : Reader) (change : List Instruction → OpenBlock → Option OpenBlock) : Reader :=
  match r.frames with
  | [] => r
  | f :: rest =>
    match change r.body f.block with
    | none => r
    | some b => { r with body := [], frames := { f with block := b } :: rest }

end Reader

namespace OpenBlock

/-- Ends a decision. -/
def endChoice : OpenBlock → Option OpenBlock
  | b@(firstBranch _) => some b
  | b@(otherBranch ..) => some b
  | b@(lastBranch ..) => some b
  | _ => none

/-- Goes on with a further branch of a decision. -/
def elseIf (elseLabel : Option String) (condition : String) (label : Option String)
    (body : List Instruction) : OpenBlock → Option OpenBlock
  | firstBranch c =>
    some (otherBranch { c with elseLabel := elseLabel.or c.elseLabel } body [] condition label)
  | otherBranch c first others condition' label' =>
    some (otherBranch { c with elseLabel := elseLabel.or c.elseLabel } first
      (others ++ [⟨condition', label', body⟩]) condition label)
  | _ => none

/-- Goes on with the last branch of a decision. -/
def otherwise (elseLabel : Option String) (body : List Instruction) : OpenBlock → Option OpenBlock
  | firstBranch c => some (lastBranch { c with elseLabel := elseLabel.or c.elseLabel } body [])
  | otherBranch c first others condition label =>
    some (lastBranch { c with elseLabel := elseLabel.or c.elseLabel } first
      (others ++ [⟨condition, label, body⟩]))
  | _ => none

/-- Ends a loop that tests before each pass. -/
def endWhile (exitLabel : Option String) : OpenBlock → Option OpenBlock
  | loop l =>
    match l.test with
    | .before => some (loop { l with exitLabel := exitLabel })
    | .after _ => none
  | _ => none

/-- Ends a loop that tests after each pass. -/
def repeatWhile (condition : String) (againLabel exitLabel : Option String) :
    OpenBlock → Option OpenBlock
  | loop l =>
    match l.test with
    | .before => none
    | .after _ =>
      some (loop
        { l with condition := condition, againLabel := againLabel, exitLabel := exitLabel })
  | _ => none

/-- Goes on with the next case of a switch. -/
def nextCase (label : String) (body : List Instruction) : OpenBlock → Option OpenBlock
  | switch condition color cases label' =>
    some (switch condition color (closeCase cases body label') (some label))
  | _ => none

/-- Ends a switch. -/
def endSwitch : OpenBlock → Option OpenBlock
  | b@(switch ..) => some b
  | _ => none

/-- Goes on with the next branch of a fork or a split. -/
def forkAgain (isSplit : Bool) (body : List Instruction) : OpenBlock → Option OpenBlock
  | fork isSplit' branches =>
    if isSplit = isSplit' then some (fork isSplit' (branches ++ [{ body := body }])) else none
  | _ => none

/-- Ends a fork or a split. -/
def endFork (isSplit : Bool) : OpenBlock → Option OpenBlock
  | b@(fork isSplit' _) => if isSplit = isSplit' then some b else none
  | _ => none

/-- Ends a partition. -/
def closePartition : OpenBlock → Option OpenBlock
  | b@(partition ..) => some b
  | _ => none

end OpenBlock

namespace Reader

/-- Opens a lane; the first line that names it says how it looks. -/
def openLane (r : Reader) (l : Lane) : Reader :=
  { r with
    lanes := if r.lanes.contains l.name then r.lanes else r.lanes.insert l.name l
    lane := some l.name }

/-- Handles a line with a meaning. -/
def apply (r : Reader) : Line → Reader
  | .title s => { r with title := some s }
  | .lane l => r.openLane l
  | .step s => r.addStep s
  | .text t => { r with text := some (t, []) }
  | .choice c => r.openBlock (.firstBranch c)
  | .elseIf elseLabel condition label => r.nextPart (OpenBlock.elseIf elseLabel condition label)
  | .otherwise label => r.nextPart (OpenBlock.otherwise label)
  | .endChoice => r.closeBlock OpenBlock.endChoice
  | .whileLoop l => r.openBlock (.loop l)
  | .endWhile label => r.closeBlock (OpenBlock.endWhile label)
  | .repeatLoop l => r.openBlock (.loop l)
  | .repeatWhile condition again out => r.closeBlock (OpenBlock.repeatWhile condition again out)
  | .switch condition color => r.openBlock (.switch condition color [] none)
  | .case label => r.nextPart (OpenBlock.nextCase label)
  | .endSwitch => r.closeBlock OpenBlock.endSwitch
  | .fork isSplit => r.openBlock (.fork isSplit [])
  | .forkAgain isSplit => r.nextPart (OpenBlock.forkAgain isSplit)
  | .endFork isSplit => r.closeBlock (OpenBlock.endFork isSplit)
  | .partition name color => r.openBlock (.partition name color)
  | .closePartition => r.closeBlock OpenBlock.closePartition
  | .arrow a => { r with count := r.count + 1, pending := some (r.count + 1, a) }

/-- The step that an open text becomes at a line, if the line ends it. -/
def endText (lines : List (List Char)) (line : SourceLine) : OpenText → Option Step
  | .note isLeft color floating =>
    if Token.endNote.reads line.text then some (.note ⟨isLeft, Label.dedent lines, color, floating⟩)
    else none
  | .action color first =>
    match line.raw.reverse with
    | ';' :: last =>
      let all := (first.toList :: lines ++ [last.reverse]).map Chars.trim
      let label := Chars.dropAround (· == '\n') (Chars.join ['\n'] all)
      some (.action (String.ofList label) color)
    | _ => none

/-- Handles a line outside of texts. -/
def readLine (r : Reader) (s : List Char) : Reader :=
  if s.isEmpty || Line.isDisplay.begins s then r
  else
    match Line.read? s with
    | some line => r.apply line
    | none => r

/-- Handles a line. -/
def step (r : Reader) (line : SourceLine) : Reader :=
  match r.text with
  | some (t, lines) =>
    match endText lines line t with
    | some s => { r with text := none }.addStep s
    | none => { r with text := some (t, lines ++ [line.raw]) }
  | none => r.readLine line.text

/-- Closes the given open blocks around the instructions of the innermost list. -/
def unwind : List Frame → List Instruction → List Instruction
  | [], body => body
  | f :: rest, body => unwind rest (f.before ++ [f.block.close f.node body])

/-- The diagram that was read. -/
def finish (r : Reader) : Diagram :=
  { title := r.title, instructions := unwind r.frames r.body, lanes := r.lanes }

end Reader

/-- The activity diagram of a text. -/
def Diagram.read (text : String) : Diagram :=
  ((Source.lines text).foldl Reader.step {}).finish

end Activity
end UmlDraw
