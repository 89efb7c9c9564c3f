/-
# Activity diagrams

An activity is a tree of instructions.  Steps such as actions stand for themselves; choices, loops,
switches, forks and partitions hold lists of instructions.  Every instruction has a number, given in
the order in which the instructions are read, and the lane in which it was read.
-/
import UmlDraw.Data.Keyed

namespace UmlDraw
namespace Activity

/-- What all instructions have. -/
structure Node where
  /-- The number of the instruction. -/
  id : Nat
  /-- The lane in which the instruction stands, if lanes were opened before it. -/
  lane : Option String
deriving DecidableEq, Repr

/-- A line that changes the connector to the next instruction. -/
structure Arrow where
  /-- The label of the connector. -/
  label : Option String
  /-- Its color. -/
  color : Option String
  /-- It is dashed. -/
  dashed : Bool
deriving DecidableEq, Repr

/-- A note beside the instruction before it. -/
structure Note where
  /-- The note stands on the left; else on the right. -/
  isLeft : Bool
  /-- The text. -/
  text : String
  /-- The color. -/
  color : Option String
  /-- The note is marked as floating. -/
  floating : Bool
deriving DecidableEq, Repr

/-- An instruction without instructions inside. -/
inductive Step where
  /-- A box with a label. -/
  | action (label : String) (color : Option String)
  /-- The initial node. -/
  | start
  /-- A final node, written `stop`. -/
  | stop
  /-- A final node, written `end`. -/
  | finish
  /-- The flow ends without a final node. -/
  | kill
  /-- The flow leaves the innermost loop; nothing is drawn. -/
  | leave
  | arrow (a : Arrow)
  | note (n : Note)
deriving DecidableEq, Repr

/-- A decision between a first branch, further branches with conditions of their own, and a last
branch. -/
structure Choice where
  /-- The condition of the first branch. -/
  condition : String
  /-- The label at the first branch. -/
  thenLabel : Option String := none
  /-- The label at the last branch. -/
  elseLabel : Option String := none
  /-- The color of the decision. -/
  color : Option String := none
deriving DecidableEq, Repr

/-- When the condition of a loop is tested. -/
inductive LoopTest where
  /-- Before each pass. -/
  | before
  /-- After each pass.  The first pass may start with a box. -/
  | after (startLabel : Option String)
deriving DecidableEq, Repr

/-- A loop. -/
structure Loop where
  /-- When the condition is tested. -/
  test : LoopTest
  /-- The condition. -/
  condition : String := ""
  /-- The label for another pass. -/
  againLabel : Option String := none
  /-- The label for the way out. -/
  exitLabel : Option String := none
  /-- The color of the decision. -/
  color : Option String := none
deriving DecidableEq, Repr

/-- One of several branches. -/
structure Branch (α : Type) where
  /-- The condition of a branch of a decision, or the label of a case; a branch of a fork has
  none. -/
  condition : String := ""
  /-- The label at a branch of a decision. -/
  label : Option String := none
  /-- What is done. -/
  body : List α

/-- An instruction. -/
inductive Instruction where
  | step (node : Node) (s : Step)
  | choice (node : Node) (c : Choice) (first : List Instruction)
      (others : List (Branch Instruction)) (last : List Instruction)
  | loop (node : Node) (l : Loop) (body : List Instruction)
  | switch (node : Node) (condition : String) (color : Option String)
      (cases : List (Branch Instruction))
  /-- Branches that run at the same time; a split is drawn like a fork. -/
  | fork (node : Node) (isSplit : Bool) (branches : List (Branch Instruction))
  | partition (node : Node) (name : String) (color : Option String) (body : List Instruction)

namespace Instruction

/-- The number and the lane of an instruction. -/
def node : Instruction → Node
  | step n _ => n
  | choice n _ _ _ _ => n
  | loop n _ _ => n
  | switch n _ _ _ => n
  | fork n _ _ => n
  | partition n _ _ _ => n

/-- The instruction is no part of the flow and takes no room in its list. -/
def isAside : Instruction → Bool
  | step _ (.arrow _) => true
  | step _ (.note _) => true
  | step _ .leave => true
  | _ => false

/-- The instruction leaves the innermost loop. -/
def isLeave : Instruction → Bool
  | step _ .leave => true
  | _ => false

/-- A decision with these branches only leaves a loop. -/
def onlyLeaves (first : List Instruction) (others : List (Branch Instruction))
    (last : List Instruction) : Bool :=
  last.isEmpty && others.isEmpty && !first.isEmpty && first.all isLeave

mutual

/-- The instruction and all instructions inside, in the order in which they are written. -/
def walk : Instruction → List Instruction
  | i@(step _ _) => [i]
  | i@(choice _ _ first others last) => i :: (walkAll first ++ walkBranches others ++ walkAll last)
  | i@(loop _ _ body) => i :: walkAll body
  | i@(switch _ _ _ cases) => i :: walkBranches cases
  | i@(fork _ _ branches) => i :: walkBranches branches
  | i@(partition _ _ _ body) => i :: walkAll body

/-- All instructions of a list and inside. -/
def walkAll : List Instruction → List Instruction
  | [] => []
  | i :: rest => walk i ++ walkAll rest

/-- All instructions of branches. -/
def walkBranches : List (Branch Instruction) → List Instruction
  | [] => []
  | ⟨_, _, body⟩ :: rest => walkAll body ++ walkBranches rest

end

end Instruction

/-- A lane. -/
structure Lane where
  /-- The name. -/
  name : String
  /-- The color. -/
  color : Option String
  /-- The label, if it is not the name. -/
  label : Option String
deriving DecidableEq, Repr

/-- An activity diagram. -/
structure Diagram where
  /-- The title. -/
  title : Option String := none
  /-- The instructions at the top. -/
  instructions : List Instruction := []
  /-- The lanes, by name, in order of first appearance. -/
  lanes : Keyed Lane := Keyed.empty

end Activity
end UmlDraw
