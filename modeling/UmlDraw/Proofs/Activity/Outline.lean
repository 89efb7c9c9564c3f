/-
# The outline of an activity drawing

The cells of an activity drawing are numbered in the order in which they are drawn.  Which shapes
there are, and which of them a connector joins, does not depend on where they lie; so a drawing has
an outline that is computed from the tree alone.  In the outline every instruction of the flow has
a place, the cells where the flow comes into it and goes out of it.

The main statements are

* `Instruction.outline` and the three functions beside it: the outline of an instruction, of a list
  and of branches, as they are drawn;
* `Instruction.instructions_outlineAll`: every instruction of the flow has one place, in the order
  of the tree.
-/
import Mathlib.Tactic.Lemma
import UmlDraw.Activity.Basic

namespace UmlDraw

namespace Activity

/-! ### Outlines -/

/-- A cell of an outline. -/
inductive Piece where
  /-- A shape with its label. -/
  | shape (value : String)
  /-- A connector between two numbered cells. -/
  | link (source target : Nat)
deriving DecidableEq

/-- The cells where the flow comes into an instruction and goes out of it. -/
structure Place where
  instruction : Instruction
  entry : Nat
  exit : Nat

/-- The outline of a piece of drawing. -/
structure Outline where
  /-- The cells where the flow comes in and goes out, if there is a flow. -/
  ends : Option (Nat × Nat) := none
  /-- The cells, in drawing order. -/
  pieces : List Piece := []
  /-- The places of the instructions of the flow, in the order of the tree. -/
  places : List Place := []

namespace Outline

/-- Where the flow comes in. -/
def entry (o : Outline) : Option Nat :=
  o.ends.map Prod.fst

/-- Where the flow goes out. -/
def exit (o : Outline) : Option Nat :=
  o.ends.map Prod.snd

/-- A connector, if it has both ends. -/
def flow : Option Nat → Option Nat → List Piece
  | some source, some target => [.link source target]
  | _, _ => []

/-- The cells of a list, with the connectors that lead from a cell into it and out of it to another
cell. -/
def strand (source target : Nat) (o : Outline) : List Piece :=
  o.pieces ++ (flow source o.entry ++ flow o.exit target)

/-- The cells of a branch of a decision, with its connectors: without a flow in it, the decision and
the place where branches meet are joined. -/
def branch (source target : Nat) (o : Outline) : List Piece :=
  o.pieces ++ (flow source (o.entry.or target) ++ flow o.exit target)

/-- The number of the decision behind a list that is done again; the list may have a shape before
it. -/
def test (n : Nat) (start : Option Nat) (o : Outline) : Nat :=
  n + o.pieces.length + (flow start o.entry).length + 1

/-- The cell to which the flow goes back to do a list again. -/
def top (n : Nat) (start : Option Nat) (o : Outline) : Nat :=
  (start.or o.entry).getD (o.test n start)

/-- The cells of a list that is done again, with the decision behind it. -/
def again (n : Nat) (start : Option Nat) (condition : String) (o : Outline) : List Piece :=
  o.pieces ++ (flow start o.entry ++ (.shape condition ::
    (flow o.exit (o.test n start) ++ [.link (o.test n start) (o.top n start)])))

/-- The ends of two flows one after the other. -/
def span : Option (Nat × Nat) → Option (Nat × Nat) → Option (Nat × Nat)
  | none, ends => ends
  | ends, none => ends
  | some (entry, _), some (_, exit) => some (entry, exit)

lemma map_fst_span (e e' : Option (Nat × Nat)) :
    (span e e').map Prod.fst = (e.map Prod.fst).or (e'.map Prod.fst) := by
  cases e <;> cases e' <;> rfl

lemma map_snd_span (e e' : Option (Nat × Nat)) :
    (span e e').map Prod.snd = (e'.map Prod.snd).or (e.map Prod.snd) := by
  cases e <;> cases e' <;> rfl

end Outline

open Outline

/-- The shapes of a step. -/
def Step.pieces : Step → List Piece
  | action label _ => [.shape label]
  | start | kill => [.shape ""]
  | stop | finish => [.shape "", .shape ""]
  | note n => [.shape n.text]
  | leave | arrow _ => []

namespace Instruction

mutual

/-- The outline of an instruction behind a given number of cells. -/
def outline (n : Nat) : Instruction → Outline
  | i@(step _ s) =>
    if i.isAside then { pieces := s.pieces }
    else { ends := some (n + 1, n + 1), pieces := s.pieces, places := [⟨i, n + 1, n + 1⟩] }
  | i@(choice _ c first others last) =>
    if onlyLeaves first others last then
      { ends := some (n + 1, n + 1), pieces := [.shape c.condition]
        places := [⟨i, n + 1, n + 1⟩] }
    else
      let one := outlineAll (n + 2) none first
      let m := n + 2 + (one.branch (n + 1) (n + 2)).length
      let more := outlineOthers m (n + 2) (n + 1) others
      let other := outlineAll (m + more.1.pieces.length) none last
      { ends := some (n + 1, n + 2)
        pieces := .shape c.condition :: .shape "" ::
          (one.branch (n + 1) (n + 2) ++ (more.1.pieces ++ other.branch more.2 (n + 2)))
        places := ⟨i, n + 1, n + 2⟩ :: (one.places ++ more.1.places ++ other.places) }
  | i@(loop _ l body) =>
    match l.test with
    | .before =>
      let inner := outlineAll (n + 1) none body
      { ends := some (n + 1, n + 1)
        pieces := .shape l.condition :: inner.strand (n + 1) (n + 1)
        places := ⟨i, n + 1, n + 1⟩ :: inner.places }
    | .after startLabel =>
      let first := startLabel.toList.map Piece.shape
      let start := startLabel.map fun _ => n + 1
      let m := n + first.length
      let inner := outlineAll m none body
      { ends := some (inner.top m start, inner.test m start)
        pieces := first ++ inner.again m start l.condition
        places := ⟨i, inner.top m start, inner.test m start⟩ :: inner.places }
  | i@(switch _ condition _ cases) =>
    let inner := outlineBranches (n + 2) (n + 1) (n + 2) cases
    { ends := some (n + 1, n + 2)
      pieces := .shape condition :: .shape "" :: inner.pieces
      places := ⟨i, n + 1, n + 2⟩ :: inner.places }
  | i@(fork _ _ branches) =>
    let inner := outlineBranches (n + 2) (n + 1) (n + 2) branches
    { ends := some (n + 1, n + 2)
      pieces := .shape "" :: .shape "" :: inner.pieces
      places := ⟨i, n + 1, n + 2⟩ :: inner.places }
  | i@(partition _ name _ body) =>
    let inner := outlineAll (n + 1) none body
    let ends := inner.ends.getD (n + 1, n + 1)
    { ends := some ends, pieces := .shape name :: inner.pieces
      places := ⟨i, ends.1, ends.2⟩ :: inner.places }

/-- The outline of a list behind a given number of cells; the flow comes from a cell, if there was
one in the list before. -/
def outlineAll (n : Nat) (before : Option Nat) : List Instruction → Outline
  | [] => {}
  | i :: rest =>
    let one := outline n i
    let into := flow before one.entry
    let more := outlineAll (n + one.pieces.length + into.length) (one.exit.or before) rest
    { ends := span one.ends more.ends, pieces := one.pieces ++ (into ++ more.pieces)
      places := one.places ++ more.places }

/-- The outline of the further branches of a decision, and the last decision. -/
def outlineOthers (n merge before : Nat) : List (Branch Instruction) → Outline × Nat
  | [] => ({}, before)
  | ⟨condition, _, body⟩ :: rest =>
    let inner := outlineAll (n + 2) none body
    let m := n + 2 + (inner.branch (n + 1) merge).length
    let more := outlineOthers m merge (n + 1) rest
    ({ ends := some (n + 1, more.2)
       pieces := .shape condition :: .link before (n + 1) ::
        (inner.branch (n + 1) merge ++ more.1.pieces)
       places := inner.places ++ more.1.places }, more.2)

/-- The outline of branches side by side between two cells. -/
def outlineBranches (n source target : Nat) : List (Branch Instruction) → Outline
  | [] => {}
  | ⟨_, _, body⟩ :: rest =>
    let inner := outlineAll n none body
    let more := outlineBranches (n + (inner.strand source target).length) source target rest
    { pieces := inner.strand source target ++ more.pieces, places := inner.places ++ more.places }

end

/-! ### Places -/

/-- The instructions of the flow and inside. -/
def flowOf (is : List Instruction) : List Instruction :=
  is.filter fun i => !i.isAside

lemma exists_eq_of_isLeave {i : Instruction} (h : i.isLeave = true) : ∃ n, i = step n .leave := by
  cases i with
  | step n s =>
    cases s with
    | leave => exact ⟨n, rfl⟩
    | _ => cases h
  | _ => cases h

/-- There is nothing inside of instructions that leave a loop. -/
lemma walkAll_of_all_isLeave {is : List Instruction} (h : is.all isLeave = true) :
    walkAll is = is := by
  induction is with
  | nil => rfl
  | cons i rest ih =>
    rw [List.all_cons, Bool.and_eq_true] at h
    obtain ⟨n, rfl⟩ := exists_eq_of_isLeave h.1
    rw [walkAll, ih h.2]
    rfl

lemma flowOf_walkAll_of_all_isLeave {is : List Instruction} (h : is.all isLeave = true) :
    flowOf (walkAll is) = [] := by
  rw [walkAll_of_all_isLeave h, flowOf, List.filter_eq_nil_iff]
  intro i hi
  obtain ⟨n, rfl⟩ := exists_eq_of_isLeave (List.all_eq_true.1 h i hi)
  exact Bool.false_ne_true

-- In each case the places are those of the instruction and of the lists inside, in order.
mutual

/-- The instructions of the flow have one place each, in the order of the tree. -/
lemma instructions_outline (n : Nat) :
    (i : Instruction) → (outline n i).places.map Place.instruction = flowOf i.walk
  | step nd s => by
    unfold outline
    split
    · next haside => simp [flowOf, walk, haside]
    · next haside => simp [flowOf, walk, haside]
  | choice nd c first others last => by
    unfold outline
    split
    · next honly =>
      simp only [onlyLeaves, Bool.and_eq_true, List.isEmpty_iff] at honly
      obtain ⟨⟨⟨rfl, rfl⟩, -⟩, hfirst⟩ := honly
      have hnone := flowOf_walkAll_of_all_isLeave hfirst
      simpa [walk, walkAll, walkBranches, flowOf, isAside] using hnone
    · simp [walk, flowOf, isAside, instructions_outlineAll, instructions_outlineOthers]
  | loop nd l body => by
    unfold outline
    cases l.test <;> simp [walk, flowOf, isAside, instructions_outlineAll]
  | switch nd condition color cases => by
    simp [outline, walk, flowOf, isAside, instructions_outlineBranches]
  | fork nd isSplit branches => by
    simp [outline, walk, flowOf, isAside, instructions_outlineBranches]
  | partition nd name color body => by
    simp [outline, walk, flowOf, isAside, instructions_outlineAll]

lemma instructions_outlineAll (n : Nat) (before : Option Nat) :
    (is : List Instruction) →
      (outlineAll n before is).places.map Place.instruction = flowOf (walkAll is)
  | [] => rfl
  | i :: rest => by
    simp [outlineAll, walkAll, flowOf, instructions_outline, instructions_outlineAll]

lemma instructions_outlineOthers (n merge before : Nat) :
    (others : List (Branch Instruction)) →
      (outlineOthers n merge before others).1.places.map Place.instruction =
        flowOf (walkBranches others)
  | [] => rfl
  | ⟨condition, label, body⟩ :: rest => by
    simp [outlineOthers, walkBranches, flowOf, instructions_outlineAll, instructions_outlineOthers]

lemma instructions_outlineBranches (n source target : Nat) :
    (branches : List (Branch Instruction)) →
      (outlineBranches n source target branches).places.map Place.instruction =
        flowOf (walkBranches branches)
  | [] => rfl
  | ⟨condition, label, body⟩ :: rest => by
    simp [outlineBranches, walkBranches, flowOf, instructions_outlineAll,
      instructions_outlineBranches]

end

end Instruction

/-! ### The outline of a diagram -/

namespace Diagram

/-- The shapes of the title and of the lanes. -/
def head (d : Diagram) : List Piece :=
  (d.title.filter fun t => !t.isEmpty).toList.map Piece.shape ++
    d.lanes.values.map fun l => .shape ((l.label.filter fun s => !s.isEmpty).getD l.name)

/-- The outline of a diagram, behind the title and the lanes. -/
def outline (d : Diagram) : Outline :=
  Instruction.outlineAll d.head.length none d.instructions

end Diagram
end Activity
end UmlDraw
