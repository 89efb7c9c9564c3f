/-
# The sizes of instructions

How much room an instruction takes, and how much a list of instructions.  The instructions of a
list stand one below the other, branches stand side by side.
-/
import UmlDraw.Activity.Basic
import UmlDraw.Source.Label

namespace UmlDraw
namespace Activity

/-- A width and a height. -/
structure Size where
  width : Nat
  height : Nat
deriving DecidableEq, Repr

namespace Size

/-- The smallest width of a box, and the width of an empty list. -/
def boxWidth : Nat := 140

/-- The side of a decision. -/
def diamond : Nat := 40

/-- The diameter of an initial or final node. -/
def circle : Nat := 30

/-- The height of the bars of a fork. -/
def bar : Nat := 4

/-- The smallest width of the bars of a fork. -/
def barWidth : Nat := 40

/-- The room between two instructions, one below the other. -/
def rowGap : Nat := 30

/-- The room between two branches. -/
def columnGap : Nat := 40

/-- The room on each side of a loop. -/
def loopMargin : Nat := 30

/-- The room for the name of a partition. -/
def partitionHeader : Nat := 25

/-- The room around the instructions of a partition. -/
def partitionMargin : Nat := 20

/-- The width of a note. -/
def noteWidth : Nat := 140

/-- The lines of a text. -/
def lines (text : String) : List String :=
  Text.split '\n' text

/-- The size of a box with a label. -/
def box (label : String) : Size where
  width := max boxWidth (Label.longest (lines label) * 7 + 30)
  height := max 40 ((lines label).length * 20 + 20)

/-- The size of a step. -/
def ofStep : Step → Size
  | .action label _ => box label
  | .arrow _ => ⟨0, 0⟩
  | .leave => ⟨0, 0⟩
  | .note n => ⟨noteWidth, max 40 ((lines n.text).length * 16 + 16)⟩
  | _ => ⟨circle, circle⟩

/-- The height of instructions one below the other, below a given height. -/
def stackHeight : Nat → List Size → Nat
  | total, [] => total
  | total, s :: rest => stackHeight ((if total = 0 then 0 else total + rowGap) + s.height) rest

/-- The greatest width, at least the given one. -/
def maxWidth (least : Nat) (sizes : List Size) : Nat :=
  (sizes.map Size.width).foldl max least

/-- The greatest height. -/
def maxHeight (sizes : List Size) : Nat :=
  (sizes.map Size.height).foldl max 0

/-- The size of instructions one below the other. -/
def stack (sizes : List Size) : Size where
  width := let w := maxWidth 0 sizes; if w = 0 then boxWidth else w
  height := stackHeight 0 sizes

/-- The width of columns side by side. -/
def spread (widths : List Nat) : Nat :=
  widths.foldl (· + ·) 0 + columnGap * (widths.length - 1)

/-- The widths of columns, each at least the given one. -/
def columns (least : Nat) (sizes : List Size) : List Nat :=
  sizes.map fun s => max s.width least

/-- The size of columns between a part at the top and one at the bottom. -/
def between (top bottom : Nat) (width : Nat) (sizes : List Size) : Size :=
  ⟨width, top + rowGap + maxHeight sizes + rowGap + bottom⟩

end Size

namespace Instruction

mutual

/-- The size of an instruction. -/
def size : Instruction → Size
  | step _ s => Size.ofStep s
  | choice _ _ first others last =>
    if onlyLeaves first others last then ⟨Size.diamond, Size.diamond⟩
    else
      let sizes :=
        Size.stack (flowSizes first) :: branchSizes others ++ [Size.stack (flowSizes last)]
      Size.between Size.diamond (Size.diamond / 2) (Size.spread (Size.columns Size.diamond sizes))
        sizes
  | loop _ l body =>
    let inner := Size.stack (flowSizes body)
    let header :=
      match l.test with
      | .after (some label) => (Size.box label).height + Size.rowGap
      | _ => 0
    ⟨max inner.width Size.diamond + Size.loopMargin * 2,
      header + inner.height + Size.rowGap + Size.diamond + Size.rowGap⟩
  | switch _ _ _ cases =>
    let sizes := branchSizes cases
    Size.between Size.diamond (Size.diamond / 2)
      (max (Size.spread (Size.columns Size.boxWidth sizes)) Size.diamond) sizes
  | fork _ _ branches =>
    let sizes := branchSizes branches
    Size.between Size.bar Size.bar
      (max (Size.spread (Size.columns Size.boxWidth sizes)) Size.barWidth) sizes
  | partition _ _ _ body =>
    let inner := Size.stack (flowSizes body)
    ⟨inner.width + Size.partitionMargin * 2,
      Size.partitionHeader + inner.height + Size.partitionMargin⟩

/-- The sizes of the instructions of a list that take room in it. -/
def flowSizes : List Instruction → List Size
  | [] => []
  | i :: rest => if i.isAside then flowSizes rest else size i :: flowSizes rest

/-- The sizes of branches. -/
def branchSizes : List (Branch Instruction) → List Size
  | [] => []
  | ⟨_, _, body⟩ :: rest => Size.stack (flowSizes body) :: branchSizes rest

end

/-- The size of a list of instructions. -/
def sizeAll (body : List Instruction) : Size :=
  Size.stack (flowSizes body)

end Instruction
end Activity
end UmlDraw
