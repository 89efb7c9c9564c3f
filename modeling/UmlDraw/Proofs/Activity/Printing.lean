/-
# Activities are read back from their canonical notation

An activity is printed line by line, and reading the lines gives the activity back, apart from the
nodes of its instructions: a reader numbers them in the order of the lines.

The main statements are

* `Instruction.map_node_walkAll_numberAll`: the nodes are numbered in order;
* `Instruction.numberAll_eq_self`: a tree with such nodes stays as it is;
* `Instruction.foldl_lines` and the four lemmas beside it: what reading the lines of an instruction
  and of its parts does, by induction on the instruction;
* `Diagram.read_print`: parsing undoes printing.
-/
import Mathlib.Tactic.Lemma
import UmlDraw.Activity.Basic
import UmlDraw.Proofs.Activity.Count
import UmlDraw.Proofs.Activity.Notation

namespace UmlDraw

/-! ## Numbered nodes

A reader numbers the nodes of instructions in the order in which it meets them.  Numbering gives the
instructions of a tree such nodes and changes nothing else. -/

namespace Activity
namespace Instruction

mutual

/-- The same instruction with nodes that are numbered in order, behind a given number, and have no
lanes. -/
def number (n : Nat) : Instruction → Instruction
  | step _ s => step ⟨n + 1, none⟩ s
  | choice _ c first others last =>
    choice ⟨n + 1, none⟩ c (numberAll (n + 1) first)
      (numberBranches (n + 1 + (walkAll first).length) others)
      (numberAll (n + 1 + (walkAll first).length + (walkBranches others).length) last)
  | loop _ l body => loop ⟨n + 1, none⟩ l (numberAll (n + 1) body)
  | switch _ condition color cases =>
    switch ⟨n + 1, none⟩ condition color (numberBranches (n + 1) cases)
  | fork _ isSplit branches => fork ⟨n + 1, none⟩ isSplit (numberBranches (n + 1) branches)
  | partition _ name color body => partition ⟨n + 1, none⟩ name color (numberAll (n + 1) body)

/-- The instructions of a list with numbered nodes. -/
def numberAll (n : Nat) : List Instruction → List Instruction
  | [] => []
  | i :: rest => number n i :: numberAll (n + (walk i).length) rest

/-- Branches with numbered nodes. -/
def numberBranches (n : Nat) : List (Branch Instruction) → List (Branch Instruction)
  | [] => []
  | ⟨condition, label, body⟩ :: rest =>
    ⟨condition, label, numberAll n body⟩ :: numberBranches (n + (walkAll body).length) rest

end

/-- Nodes in order behind a given number, without lanes. -/
def nodesFrom (n count : Nat) : List Node :=
  (List.range' (n + 1) count).map fun id => ⟨id, none⟩

lemma nodesFrom_succ (n count : Nat) :
    nodesFrom n (count + 1) = ⟨n + 1, none⟩ :: nodesFrom (n + 1) count := rfl

lemma nodesFrom_add (n count more : Nat) :
    nodesFrom n (count + more) = nodesFrom n count ++ nodesFrom (n + count) more := by
  rw [nodesFrom, ← List.range'_append_1, List.map_append, Nat.add_right_comm]
  rfl

lemma length_nodesFrom (n count : Nat) : (nodesFrom n count).length = count := by
  rw [nodesFrom, List.length_map, List.length_range']

mutual

lemma map_node_walk_number (n : Nat) :
    (i : Instruction) → (walk (number n i)).map node = nodesFrom n (walk i).length
  | step _ _ => rfl
  | choice _ c first others last => by
    rw [number, walk, walk, List.map_cons, List.map_append, List.map_append,
      map_node_walkAll_numberAll, map_node_walkBranches_numberBranches, map_node_walkAll_numberAll,
      List.length_cons, List.length_append, List.length_append, nodesFrom_succ, nodesFrom_add,
      nodesFrom_add, ← Nat.add_assoc]
    rfl
  | loop _ _ body => by
    rw [number, walk, walk, List.map_cons, map_node_walkAll_numberAll, List.length_cons,
      nodesFrom_succ]
    rfl
  | switch _ _ _ cases => by
    rw [number, walk, walk, List.map_cons, map_node_walkBranches_numberBranches, List.length_cons,
      nodesFrom_succ]
    rfl
  | fork _ _ branches => by
    rw [number, walk, walk, List.map_cons, map_node_walkBranches_numberBranches, List.length_cons,
      nodesFrom_succ]
    rfl
  | partition _ _ _ body => by
    rw [number, walk, walk, List.map_cons, map_node_walkAll_numberAll, List.length_cons,
      nodesFrom_succ]
    rfl

/-- Numbering gives the instructions nodes in order. -/
lemma map_node_walkAll_numberAll (n : Nat) :
    (is : List Instruction) → (walkAll (numberAll n is)).map node = nodesFrom n (walkAll is).length
  | [] => rfl
  | i :: rest => by
    rw [numberAll, walkAll, walkAll, List.map_append, map_node_walk_number,
      map_node_walkAll_numberAll, List.length_append, nodesFrom_add]

lemma map_node_walkBranches_numberBranches (n : Nat) :
    (branches : List (Branch Instruction)) →
      (walkBranches (numberBranches n branches)).map node =
        nodesFrom n (walkBranches branches).length
  | [] => rfl
  | ⟨_, _, body⟩ :: rest => by
    rw [numberBranches, walkBranches, walkBranches, List.map_append, map_node_walkAll_numberAll,
      map_node_walkBranches_numberBranches, List.length_append, nodesFrom_add]

end

/-- The nodes of two parts are numbered in order if those of both are. -/
lemma map_node_append_eq_iff {n : Nat} {is is' : List Instruction} :
    (is ++ is').map node = nodesFrom n (is ++ is').length ↔
      is.map node = nodesFrom n is.length ∧
        is'.map node = nodesFrom (n + is.length) is'.length := by
  rw [List.map_append, List.length_append, nodesFrom_add]
  constructor
  · intro h
    exact List.append_inj h (by rw [List.length_map, length_nodesFrom])
  · rintro ⟨h, h'⟩
    rw [h, h']

lemma map_node_cons_eq_iff {n : Nat} {i : Instruction} {is : List Instruction} :
    (i :: is).map node = nodesFrom n (i :: is).length ↔
      i.node = ⟨n + 1, none⟩ ∧ is.map node = nodesFrom (n + 1) is.length := by
  rw [List.map_cons, List.length_cons, nodesFrom_succ, List.cons.injEq]

mutual

lemma number_eq_self (n : Nat) :
    (i : Instruction) → (walk i).map node = nodesFrom n (walk i).length → number n i = i
  | step m s, h => by
    obtain ⟨rfl, -⟩ := map_node_cons_eq_iff.1 h
    rfl
  | choice m c first others last, h => by
    rw [walk] at h
    obtain ⟨rfl, hinner⟩ := map_node_cons_eq_iff.1 h
    obtain ⟨hinner, hlast⟩ := map_node_append_eq_iff.1 hinner
    obtain ⟨hfirst, hothers⟩ := map_node_append_eq_iff.1 hinner
    rw [List.length_append, ← Nat.add_assoc] at hlast
    rw [number, numberAll_eq_self _ first hfirst, numberBranches_eq_self _ others hothers,
      numberAll_eq_self _ last hlast]
  | loop m l body, h => by
    rw [walk] at h
    obtain ⟨rfl, hbody⟩ := map_node_cons_eq_iff.1 h
    rw [number, numberAll_eq_self _ body hbody]
  | switch m condition color cases, h => by
    rw [walk] at h
    obtain ⟨rfl, hcases⟩ := map_node_cons_eq_iff.1 h
    rw [number, numberBranches_eq_self _ cases hcases]
  | fork m isSplit branches, h => by
    rw [walk] at h
    obtain ⟨rfl, hbranches⟩ := map_node_cons_eq_iff.1 h
    rw [number, numberBranches_eq_self _ branches hbranches]
  | partition m name color body, h => by
    rw [walk] at h
    obtain ⟨rfl, hbody⟩ := map_node_cons_eq_iff.1 h
    rw [number, numberAll_eq_self _ body hbody]

/-- Numbering changes nothing if the nodes are in order already. -/
lemma numberAll_eq_self (n : Nat) :
    (is : List Instruction) → (walkAll is).map node = nodesFrom n (walkAll is).length →
      numberAll n is = is
  | [], _ => rfl
  | i :: rest, h => by
    rw [walkAll] at h
    obtain ⟨hi, hrest⟩ := map_node_append_eq_iff.1 h
    rw [numberAll, number_eq_self n i hi, numberAll_eq_self _ rest hrest]

lemma numberBranches_eq_self (n : Nat) :
    (branches : List (Branch Instruction)) →
      (walkBranches branches).map node = nodesFrom n (walkBranches branches).length →
      numberBranches n branches = branches
  | [], _ => rfl
  | ⟨_, _, body⟩ :: rest, h => by
    rw [walkBranches] at h
    obtain ⟨hbody, hrest⟩ := map_node_append_eq_iff.1 h
    rw [numberBranches, numberAll_eq_self n body hbody, numberBranches_eq_self _ rest hrest]

end

end Instruction

/-! ## The notation and its lines

An activity is printed line by line: a step is one line, and a block has a line in front of each of
its parts and one at its end.  Reading the lines of an instruction appends this instruction to the
innermost open list and leaves everything else as it is, whatever blocks are open around it.  So the
printed text of an activity is read as this activity; its nodes are numbered in the order of the
lines. -/


namespace Instruction

mutual

/-- The lines of an instruction.  A decision has a line for the last branch only if there is a label
or an instruction in it. -/
def lines : Instruction → List Line
  | step _ s => [.step s]
  | choice _ c first others last =>
    .choice { c with elseLabel := none } :: (linesAll first ++ (linesOthers others ++
      ((if c.elseLabel.isNone && last.isEmpty then []
        else .otherwise c.elseLabel :: linesAll last) ++
        [.endChoice])))
  | loop _ l body =>
    match l.test with
    | .before =>
      .whileLoop { l with exitLabel := none } :: (linesAll body ++ [.endWhile l.exitLabel])
    | .after start =>
      .repeatLoop { test := .after start, color := l.color } ::
        (linesAll body ++ [.repeatWhile l.condition l.againLabel l.exitLabel])
  | switch _ condition color cases => .switch condition color :: (linesCases cases ++ [.endSwitch])
  | fork _ isSplit branches =>
    linesBranches (.fork isSplit) (.forkAgain isSplit) branches ++ [.endFork isSplit]
  | partition _ name color body => .partition name color :: (linesAll body ++ [.closePartition])

/-- The lines of a list of instructions. -/
def linesAll : List Instruction → List Line
  | [] => []
  | i :: rest => lines i ++ linesAll rest

/-- The lines of the further branches of a decision. -/
def linesOthers : List (Branch Instruction) → List Line
  | [] => []
  | ⟨condition, label, body⟩ :: rest =>
    .elseIf none condition label :: (linesAll body ++ linesOthers rest)

/-- The lines of the cases of a switch. -/
def linesCases : List (Branch Instruction) → List Line
  | [] => []
  | ⟨label, _, body⟩ :: rest => .case label :: (linesAll body ++ linesCases rest)

/-- The lines of the branches of a fork, with the line in front of the first branch and the one in
front of each further branch. -/
def linesBranches (head next : Line) : List (Branch Instruction) → List Line
  | [] => []
  | ⟨_, _, body⟩ :: rest => head :: (linesAll body ++ linesBranches next next rest)

end

/-- The text of a list of instructions. -/
def print (is : List Instruction) : String :=
  Text.join "\n" ((linesAll is).map Line.write)

/-- The instruction itself, whatever is inside, can be written in canonical notation: it is no
connector line and no note, its texts are words, it has no color, and a fork has a branch. -/
def Canonical : Instruction → Prop
  | step _ s => s.Canonical
  | choice _ c _ others _ => IsWord c.condition ∧ (∀ s ∈ c.thenLabel, IsWord s) ∧
      (∀ s ∈ c.elseLabel, IsWord s) ∧ c.color = none ∧
      ∀ b ∈ others, IsWord b.condition ∧ ∀ s ∈ b.label, IsWord s
  | loop _ l _ => (∀ s ∈ l.test.startLabel, IsWord s) ∧ IsWord l.condition ∧
      (∀ s ∈ l.againLabel, IsWord s) ∧ (∀ s ∈ l.exitLabel, IsWord s) ∧ l.color = none
  | switch _ condition color cases => IsWord condition ∧ color = none ∧
      ∀ b ∈ cases, IsWord b.condition ∧ b.label = none
  | fork _ _ branches => branches ≠ [] ∧ ∀ b ∈ branches, b.condition = "" ∧ b.label = none
  | partition _ name color _ => IsWord name ∧ color = none

instance : DecidablePred Canonical
  | step _ s => inferInstanceAs (Decidable s.Canonical)
  | choice _ c _ others _ => inferInstanceAs (Decidable (IsWord c.condition ∧
      (∀ s ∈ c.thenLabel, IsWord s) ∧ (∀ s ∈ c.elseLabel, IsWord s) ∧ c.color = none ∧
      ∀ b ∈ others, IsWord b.condition ∧ ∀ s ∈ b.label, IsWord s))
  | loop _ l _ => inferInstanceAs (Decidable ((∀ s ∈ l.test.startLabel, IsWord s) ∧
      IsWord l.condition ∧ (∀ s ∈ l.againLabel, IsWord s) ∧ (∀ s ∈ l.exitLabel, IsWord s) ∧
      l.color = none))
  | switch _ condition color cases => inferInstanceAs (Decidable (IsWord condition ∧ color = none ∧
      ∀ b ∈ cases, IsWord b.condition ∧ b.label = none))
  | fork _ _ branches => inferInstanceAs (Decidable (branches ≠ [] ∧
      ∀ b ∈ branches, b.condition = "" ∧ b.label = none))
  | partition _ name color _ => inferInstanceAs (Decidable (IsWord name ∧ color = none))

end Instruction

/-! ### The steps of the reader -/

/-- The block is open at a branch of a decision other than the last one: with the instructions of
that branch, it has the given first branch and the given further ones. -/
inductive OpenBlock.HoldsChoice (body : List Instruction) :
    OpenBlock → Choice → List Instruction → List (Branch Instruction) → Prop
  | first (c : Choice) : HoldsChoice body (.firstBranch c) c body []
  | other (c : Choice) (first : List Instruction) (others : List (Branch Instruction))
      (condition : String) (label : Option String) :
      HoldsChoice body (.otherBranch c first others condition label) c first
        (others ++ [⟨condition, label, body⟩])

namespace Reader

/-- The state behind a number of instructions, in a text without a title, lanes and connector lines.
-/
def inside (n : Nat) (body : List Instruction) (frames : List Frame) : Reader :=
  { count := n, body := body, frames := frames }

variable {n : Nat} {body before first : List Instruction} {others : List (Branch Instruction)}
  {frames : List Frame} {node : Node} {b : OpenBlock} {c : Choice}

lemma addStep_inside {s : Step} (hs : s.Canonical) :
    (inside n body frames).addStep s =
      inside (n + 1) (body ++ [.step ⟨n + 1, none⟩ s]) frames := by
  cases s with
  | arrow | note => exact hs.elim
  | _ => simp [addStep, inside, pendingSteps, nextNode]

lemma openBlock_inside (b : OpenBlock) :
    (inside n body frames).openBlock b =
      inside (n + 1) [] (⟨body, ⟨n + 1, none⟩, b⟩ :: frames) := by
  simp [openBlock, inside, pendingSteps, nextNode]

lemma apply_elseIf_inside (hb : b.HoldsChoice body c first others) (condition : String)
    (label : Option String) :
    (inside n body (⟨before, node, b⟩ :: frames)).apply (.elseIf none condition label) =
      inside n [] (⟨before, node, .otherBranch c first others condition label⟩ :: frames) := by
  cases hb <;> rfl

lemma apply_otherwise_inside (hb : b.HoldsChoice body c first others) (label : Option String) :
    (inside n body (⟨before, node, b⟩ :: frames)).apply (.otherwise label) =
      inside n [] (⟨before, node,
        .lastBranch { c with elseLabel := label.or c.elseLabel } first others⟩ :: frames) := by
  cases hb <;> rfl

lemma apply_endChoice_inside (hb : b.HoldsChoice body c first others) :
    (inside n body (⟨before, node, b⟩ :: frames)).apply .endChoice =
      inside n (before ++ [.choice node c first others []]) frames := by
  cases hb <;> rfl

lemma apply_case_inside {condition : String} {color : Option String}
    {cases : List (Branch Instruction)} {label : Option String} (name : String) :
    (inside n body (⟨before, node, .switch condition color cases label⟩ :: frames)).apply
        (.case name) =
      inside n []
        (⟨before, node, .switch condition color (closeCase cases body label) (some name)⟩ ::
          frames) := rfl

lemma apply_forkAgain_inside {isSplit : Bool} {branches : List (Branch Instruction)} :
    (inside n body (⟨before, node, .fork isSplit branches⟩ :: frames)).apply
        (.forkAgain isSplit) =
      inside n [] (⟨before, node, .fork isSplit (branches ++ [{ body := body }])⟩ :: frames) := by
  cases isSplit <;> rfl

end Reader

namespace Instruction

open Reader

-- The lemmas go through an instruction as the functions for its lines do.  In each case the lines
-- of a block are read in order: what is inside a part is appended to the list that the line in
-- front opened.
mutual

lemma foldl_lines (n : Nat) (body : List Instruction) (frames : List Frame) :
    (i : Instruction) → (∀ j ∈ walk i, j.Canonical) →
      (lines i).foldl Reader.apply (inside n body frames) =
        inside (n + (walk i).length) (body ++ [number n i]) frames
  | step m s, h => by
    have hs : (step m s).Canonical := h _ (List.mem_cons_self ..)
    rw [lines, List.foldl_cons, List.foldl_nil, apply, addStep_inside hs, number]
    rfl
  | choice m c first others last, h => by
    rw [walk] at h ⊢
    obtain ⟨-, hinner⟩ := List.forall_mem_cons.1 h
    obtain ⟨hinner, hlast⟩ := List.forall_mem_append.1 hinner
    obtain ⟨hfirst, hothers⟩ := List.forall_mem_append.1 hinner
    rw [lines, List.foldl_cons, List.foldl_append, List.foldl_append, apply, openBlock_inside,
      foldl_linesAll (n + 1) [] _ first hfirst, List.nil_append]
    obtain ⟨body', b, hread, hb⟩ := foldl_linesOthers (n + 1 + (walkAll first).length) body frames
      ⟨n + 1, none⟩ (.first { c with elseLabel := none }) others hothers
    have hcount : n + (choice m c first others last ::
        (walkAll first ++ walkBranches others ++ walkAll last)).length =
          n + 1 + (walkAll first).length + (walkBranches others).length +
            (walkAll last).length := by
      rw [List.length_cons, List.length_append, List.length_append]
      omega
    rw [hread, hcount, number]
    rw [List.nil_append] at hb
    split
    · next hnone =>
      rw [Bool.and_eq_true, Option.isNone_iff_eq_none, List.isEmpty_iff] at hnone
      obtain ⟨hlabel, rfl⟩ := hnone
      rw [List.nil_append, List.foldl_cons, apply_endChoice_inside hb, ← hlabel]
      rfl
    · rw [List.cons_append, List.foldl_cons, List.foldl_append, apply_otherwise_inside hb,
        Option.or_none, foldl_linesAll _ [] _ last hlast, List.nil_append]
      rfl
  | loop m ⟨.before, condition, again, out, color⟩ inner, h => by
    rw [walk] at h ⊢
    obtain ⟨-, hinner⟩ := List.forall_mem_cons.1 h
    rw [lines, List.foldl_cons, List.foldl_append, apply, openBlock_inside,
      foldl_linesAll (n + 1) [] _ inner hinner, List.length_cons, number, Nat.add_right_comm]
    rfl
  | loop m ⟨.after start, condition, again, out, color⟩ inner, h => by
    rw [walk] at h ⊢
    obtain ⟨-, hinner⟩ := List.forall_mem_cons.1 h
    rw [lines, List.foldl_cons, List.foldl_append, apply, openBlock_inside,
      foldl_linesAll (n + 1) [] _ inner hinner, List.length_cons, number, Nat.add_right_comm]
    rfl
  | switch m condition color cases, h => by
    rw [walk] at h ⊢
    obtain ⟨⟨-, -, hcases⟩, hinner⟩ := List.forall_mem_cons.1 h
    obtain ⟨body', done, label, hread, hdone⟩ := foldl_linesCases (n + 1) [] body frames
      ⟨n + 1, none⟩ condition color [] none cases (fun b hb => (hcases b hb).2) hinner
    rw [closeCase, List.nil_append] at hdone
    rw [lines, List.foldl_cons, List.foldl_append, apply, openBlock_inside, hread, number, ← hdone,
      List.length_cons, Nat.add_right_comm]
    rfl
  | fork m isSplit [], h => by
    have hfork : (fork m isSplit []).Canonical := h _ (List.mem_cons_self ..)
    exact absurd rfl hfork.1
  | fork m isSplit (⟨condition, label, inner⟩ :: rest), h => by
    rw [walk, walkBranches] at h ⊢
    obtain ⟨⟨-, hheads⟩, hinner⟩ := List.forall_mem_cons.1 h
    obtain ⟨hinner, hrest⟩ := List.forall_mem_append.1 hinner
    obtain ⟨⟨rfl, rfl⟩, hrestHeads⟩ := List.forall_mem_cons.1 hheads
    obtain ⟨body', done, hread, hdone⟩ := foldl_linesBranches (n + 1 + (walkAll inner).length)
      (numberAll (n + 1) inner) body frames ⟨n + 1, none⟩ isSplit [] rest hrestHeads hrest
    rw [List.nil_append, List.singleton_append] at hdone
    rw [lines, linesBranches, List.cons_append, List.append_assoc, List.foldl_cons,
      List.foldl_append, List.foldl_append, apply, openBlock_inside,
      foldl_linesAll (n + 1) [] _ inner hinner, List.nil_append, hread, number, numberBranches,
      ← hdone]
    have hcount : n + (fork m isSplit (⟨"", none, inner⟩ :: rest) ::
        (walkAll inner ++ walkBranches rest)).length =
          n + 1 + (walkAll inner).length + (walkBranches rest).length := by
      rw [List.length_cons, List.length_append]
      omega
    rw [hcount]
    cases isSplit <;> rfl
  | partition m name color inner, h => by
    rw [walk] at h ⊢
    obtain ⟨hi, hinner⟩ := List.forall_mem_cons.1 h
    rw [lines, List.foldl_cons, List.foldl_append, apply, openBlock_inside,
      foldl_linesAll (n + 1) [] _ inner hinner, List.length_cons, number, Nat.add_right_comm]
    rfl
termination_by structural i => i

lemma foldl_linesAll (n : Nat) (body : List Instruction) (frames : List Frame) :
    (is : List Instruction) → (∀ j ∈ walkAll is, j.Canonical) →
      (linesAll is).foldl Reader.apply (inside n body frames) =
        inside (n + (walkAll is).length) (body ++ numberAll n is) frames
  | [], _ => by
    rw [linesAll, numberAll, walkAll, List.append_nil]
    rfl
  | i :: rest, h => by
    rw [walkAll] at h ⊢
    obtain ⟨hi, hrest⟩ := List.forall_mem_append.1 h
    rw [linesAll, List.foldl_append, foldl_lines n body frames i hi,
      foldl_linesAll _ _ frames rest hrest, numberAll, List.length_append, Nat.add_assoc,
      List.append_assoc, List.singleton_append]
termination_by structural is => is

lemma foldl_linesOthers (n : Nat) {body first : List Instruction} (before : List Instruction)
    (frames : List Frame) (node : Node) {b : OpenBlock} {c : Choice}
    {done : List (Branch Instruction)} (hb : b.HoldsChoice body c first done) :
    (others : List (Branch Instruction)) → (∀ j ∈ walkBranches others, j.Canonical) →
      ∃ body' b', (linesOthers others).foldl Reader.apply
          (inside n body (⟨before, node, b⟩ :: frames)) =
        inside (n + (walkBranches others).length) body' (⟨before, node, b'⟩ :: frames) ∧
        b'.HoldsChoice body' c first (done ++ numberBranches n others)
  | [], _ => ⟨body, b, rfl, by rwa [numberBranches, List.append_nil]⟩
  | ⟨condition, label, inner⟩ :: rest, h => by
    rw [walkBranches] at h ⊢
    obtain ⟨hinner, hrest⟩ := List.forall_mem_append.1 h
    rw [linesOthers, List.foldl_cons, List.foldl_append, apply_elseIf_inside hb,
      foldl_linesAll n [] _ inner hinner, List.nil_append]
    obtain ⟨body', b', hread, hb'⟩ :=
      foldl_linesOthers (n + (walkAll inner).length) before frames node
        (.other c first done condition label) rest hrest
    refine ⟨body', b', ?_, ?_⟩
    · rw [hread, List.length_append, Nat.add_assoc]
    · rwa [List.append_assoc, List.singleton_append] at hb'
termination_by structural others => others

lemma foldl_linesCases (n : Nat) (body before : List Instruction) (frames : List Frame)
    (node : Node) (condition : String) (color : Option String) (done : List (Branch Instruction))
    (label : Option String) :
    (cases : List (Branch Instruction)) → (∀ b ∈ cases, b.label = none) →
      (∀ j ∈ walkBranches cases, j.Canonical) →
      ∃ body' done' label', (linesCases cases).foldl Reader.apply
          (inside n body (⟨before, node, .switch condition color done label⟩ :: frames)) =
        inside (n + (walkBranches cases).length) body'
          (⟨before, node, .switch condition color done' label'⟩ :: frames) ∧
        closeCase done' body' label' = closeCase done body label ++ numberBranches n cases
  | [], _, _ => ⟨body, done, label, rfl, by rw [numberBranches, List.append_nil]⟩
  | ⟨name, _, inner⟩ :: rest, hlabels, h => by
    rw [walkBranches] at h ⊢
    obtain ⟨hinner, hrest⟩ := List.forall_mem_append.1 h
    obtain ⟨rfl, hrestLabels⟩ := List.forall_mem_cons.1 hlabels
    obtain ⟨body', done', label', hread, hdone⟩ :=
      foldl_linesCases (n + (walkAll inner).length) (numberAll n inner) before frames node condition
        color (closeCase done body label) (some name) rest hrestLabels hrest
    refine ⟨body', done', label', ?_, ?_⟩
    · rw [linesCases, List.foldl_cons, List.foldl_append, apply_case_inside,
        foldl_linesAll n [] _ inner hinner, List.nil_append, hread, List.length_append,
        Nat.add_assoc]
    · rw [hdone, closeCase, numberBranches, List.append_assoc, List.singleton_append]
termination_by structural cases => cases

lemma foldl_linesBranches (n : Nat) (body before : List Instruction) (frames : List Frame)
    (node : Node) (isSplit : Bool) (done : List (Branch Instruction)) :
    (branches : List (Branch Instruction)) → (∀ b ∈ branches, b.condition = "" ∧ b.label = none) →
      (∀ j ∈ walkBranches branches, j.Canonical) →
      ∃ body' done', (linesBranches (.forkAgain isSplit) (.forkAgain isSplit) branches).foldl
          Reader.apply (inside n body (⟨before, node, .fork isSplit done⟩ :: frames)) =
        inside (n + (walkBranches branches).length) body'
          (⟨before, node, .fork isSplit done'⟩ :: frames) ∧
        done' ++ [{ body := body' }] = done ++ [{ body := body }] ++ numberBranches n branches
  | [], _, _ => ⟨body, done, rfl, by rw [numberBranches, List.append_nil]⟩
  | ⟨_, _, inner⟩ :: rest, hheads, h => by
    rw [walkBranches] at h ⊢
    obtain ⟨hinner, hrest⟩ := List.forall_mem_append.1 h
    obtain ⟨⟨rfl, rfl⟩, hrestHeads⟩ := List.forall_mem_cons.1 hheads
    obtain ⟨body', done', hread, hdone⟩ :=
      foldl_linesBranches (n + (walkAll inner).length) (numberAll n inner) before frames node
        isSplit (done ++ [{ body := body }]) rest hrestHeads hrest
    refine ⟨body', done', ?_, ?_⟩
    · rw [linesBranches, List.foldl_cons, List.foldl_append, apply_forkAgain_inside,
        foldl_linesAll n [] _ inner hinner, List.nil_append, hread, List.length_append,
        Nat.add_assoc]
    · rw [hdone, numberBranches, List.append_assoc, List.singleton_append]
termination_by structural branches => branches

end

/-! ### The lines of canonical instructions are canonical -/

mutual

lemma canonical_of_mem_lines :
    (i : Instruction) → (∀ j ∈ walk i, j.Canonical) → ∀ l ∈ lines i, l.Canonical
  | step m s, h => by
    rw [lines, List.forall_mem_singleton]
    exact h (step m s) (List.mem_cons_self ..)
  | choice m c first others last, h => by
    rw [walk] at h
    obtain ⟨⟨hcondition, hthen, helse, hcolor, hbranches⟩, hinner⟩ := List.forall_mem_cons.1 h
    obtain ⟨hinner, hlast⟩ := List.forall_mem_append.1 hinner
    obtain ⟨hfirst, hothers⟩ := List.forall_mem_append.1 hinner
    rw [lines, List.forall_mem_cons, List.forall_mem_append, List.forall_mem_append,
      List.forall_mem_append, List.forall_mem_singleton]
    refine ⟨⟨hcondition, hthen, rfl, hcolor⟩, canonical_of_mem_linesAll first hfirst,
      canonical_of_mem_linesOthers others hbranches hothers, ?_, trivial⟩
    split
    · exact fun l hl => nomatch hl
    · exact List.forall_mem_cons.2 ⟨helse, canonical_of_mem_linesAll last hlast⟩
  | loop m ⟨.before, condition, again, out, color⟩ inner, h => by
    rw [walk] at h
    obtain ⟨⟨-, hcondition, hagain, hout, hcolor⟩, hinner⟩ := List.forall_mem_cons.1 h
    rw [lines, List.forall_mem_cons, List.forall_mem_append, List.forall_mem_singleton]
    exact ⟨⟨rfl, hcondition, hagain, rfl, hcolor⟩, canonical_of_mem_linesAll inner hinner, hout⟩
  | loop m ⟨.after start, condition, again, out, color⟩ inner, h => by
    rw [walk] at h
    obtain ⟨⟨hstart, hcondition, hagain, hout, rfl⟩, hinner⟩ := List.forall_mem_cons.1 h
    rw [lines, List.forall_mem_cons, List.forall_mem_append, List.forall_mem_singleton]
    exact ⟨⟨start, hstart, rfl⟩, canonical_of_mem_linesAll inner hinner, hcondition, hagain, hout⟩
  | switch m condition color cases, h => by
    rw [walk] at h
    obtain ⟨⟨hcondition, hcolor, hcases⟩, hinner⟩ := List.forall_mem_cons.1 h
    rw [lines, List.forall_mem_cons, List.forall_mem_append, List.forall_mem_singleton]
    exact ⟨⟨hcondition, hcolor⟩,
      canonical_of_mem_linesCases cases (fun b hb => (hcases b hb).1) hinner, trivial⟩
  | fork m isSplit branches, h => by
    rw [walk] at h
    obtain ⟨-, hinner⟩ := List.forall_mem_cons.1 h
    have hhead : (Line.fork isSplit).Canonical := trivial
    have hnext : (Line.forkAgain isSplit).Canonical := trivial
    rw [lines, List.forall_mem_append, List.forall_mem_singleton]
    exact ⟨canonical_of_mem_linesBranches hhead hnext branches hinner, trivial⟩
  | partition m name color inner, h => by
    rw [walk] at h
    obtain ⟨⟨hname, hcolor⟩, hinner⟩ := List.forall_mem_cons.1 h
    rw [lines, List.forall_mem_cons, List.forall_mem_append, List.forall_mem_singleton]
    exact ⟨⟨hname, hcolor⟩, canonical_of_mem_linesAll inner hinner, trivial⟩

lemma canonical_of_mem_linesAll :
    (is : List Instruction) → (∀ j ∈ walkAll is, j.Canonical) → ∀ l ∈ linesAll is, l.Canonical
  | [], _ => fun l hl => nomatch hl
  | i :: rest, h => by
    rw [walkAll] at h
    obtain ⟨hi, hrest⟩ := List.forall_mem_append.1 h
    rw [linesAll, List.forall_mem_append]
    exact ⟨canonical_of_mem_lines i hi, canonical_of_mem_linesAll rest hrest⟩

lemma canonical_of_mem_linesOthers :
    (others : List (Branch Instruction)) →
      (∀ b ∈ others, IsWord b.condition ∧ ∀ s ∈ b.label, IsWord s) →
      (∀ j ∈ walkBranches others, j.Canonical) → ∀ l ∈ linesOthers others, l.Canonical
  | [], _, _ => fun l hl => nomatch hl
  | ⟨condition, label, inner⟩ :: rest, hheads, h => by
    rw [walkBranches] at h
    obtain ⟨hinner, hrest⟩ := List.forall_mem_append.1 h
    obtain ⟨⟨hcondition, hlabel⟩, hrestHeads⟩ := List.forall_mem_cons.1 hheads
    rw [linesOthers, List.forall_mem_cons, List.forall_mem_append]
    exact ⟨⟨rfl, hcondition, hlabel⟩, canonical_of_mem_linesAll inner hinner,
      canonical_of_mem_linesOthers rest hrestHeads hrest⟩

lemma canonical_of_mem_linesCases :
    (cases : List (Branch Instruction)) → (∀ b ∈ cases, IsWord b.condition) →
      (∀ j ∈ walkBranches cases, j.Canonical) → ∀ l ∈ linesCases cases, l.Canonical
  | [], _, _ => fun l hl => nomatch hl
  | ⟨label, _, inner⟩ :: rest, hlabels, h => by
    rw [walkBranches] at h
    obtain ⟨hinner, hrest⟩ := List.forall_mem_append.1 h
    obtain ⟨hlabel, hrestLabels⟩ := List.forall_mem_cons.1 hlabels
    rw [linesCases, List.forall_mem_cons, List.forall_mem_append]
    exact ⟨hlabel, canonical_of_mem_linesAll inner hinner,
      canonical_of_mem_linesCases rest hrestLabels hrest⟩

lemma canonical_of_mem_linesBranches {head next : Line} (hhead : head.Canonical)
    (hnext : next.Canonical) :
    (branches : List (Branch Instruction)) → (∀ j ∈ walkBranches branches, j.Canonical) →
      ∀ l ∈ linesBranches head next branches, l.Canonical
  | [], _ => fun l hl => nomatch hl
  | ⟨_, _, inner⟩ :: rest, h => by
    rw [walkBranches] at h
    obtain ⟨hinner, hrest⟩ := List.forall_mem_append.1 h
    rw [linesBranches, List.forall_mem_cons, List.forall_mem_append]
    exact ⟨hhead, canonical_of_mem_linesAll inner hinner,
      canonical_of_mem_linesBranches hnext hnext rest hrest⟩

end

end Instruction

lemma Line.Canonical.isInstruction {l : Line} (hl : l.Canonical) : l.isInstruction = true := by
  cases l with
  | title | lane | text => exact hl.elim
  | _ => rfl

namespace Reader

/-- Lines in canonical notation are read as what they say. -/
lemma foldl_step_write {r : Reader} (hr : r.text = none) {ls : List Line}
    (hls : ∀ l ∈ ls, l.Canonical) :
    (ls.map fun l => (⟨l.write.toList, l.write.toList⟩ : SourceLine)).foldl step r =
      ls.foldl apply r := by
  induction ls generalizing r with
  | nil => rfl
  | cons l rest ih =>
    obtain ⟨hl, hrest⟩ := List.forall_mem_cons.1 hls
    rw [List.map_cons, List.foldl_cons, step_write hr hl]
    exact ih ((keeps_apply r hl.isInstruction).text.trans hr) hrest

end Reader

namespace Diagram

open Instruction

lemma read_print_eq (is : List Instruction) (h : ∀ i ∈ walkAll is, i.Canonical) :
    read (print is) = { instructions := numberAll 0 is } := by
  have hcanonical := canonical_of_mem_linesAll is h
  have hread : ((linesAll is).map fun l => (⟨l.write.toList, l.write.toList⟩ : SourceLine)).foldl
      Reader.step {} = Reader.inside (walkAll is).length (numberAll 0 is) [] := by
    rw [Reader.foldl_step_write rfl hcanonical]
    have hlines := foldl_linesAll 0 [] [] is h
    rwa [Nat.zero_add, List.nil_append] at hlines
  by_cases hempty : linesAll is = []
  · -- the empty text has one line, which is empty
    have hbody : [] = numberAll 0 is := by
      rw [hempty] at hread
      exact congrArg Reader.body hread
    rw [print, hempty, ← hbody]
    rfl
  · have htexts : (linesAll is).map Line.write ≠ [] := by simpa using hempty
    have htidy : ∀ t ∈ (linesAll is).map Line.write, Source.Tidy t.toList := by
      rw [List.forall_mem_map]
      exact fun l hl => Line.tidy_write (hcanonical l hl)
    rw [read, print, Source.lines_join htexts htidy, List.map_map]
    exact congrArg Reader.finish hread

/-- Parsing undoes printing: what is printed in canonical notation is read back as it was, with
nodes that are numbered in the order of the lines.  If the nodes were in that order already, exactly
the instructions that were printed are read. -/
theorem read_print (is : List Instruction) (h : ∀ i ∈ walkAll is, i.Canonical) :
    read (print is) = { instructions := numberAll 0 is } ∧
      (walkAll (numberAll 0 is)).map node = nodesFrom 0 (walkAll is).length ∧
      ((walkAll is).map node = nodesFrom 0 (walkAll is).length →
        read (print is) = { instructions := is }) := by
  have hread := read_print_eq is h
  refine ⟨hread, map_node_walkAll_numberAll 0 is, fun hnodes => ?_⟩
  rw [hread, numberAll_eq_self 0 is hnodes]

/-- A decision with a fork, a loop that is left, and no label at its last branch. -/
theorem read_print_fork :
    let is : List Instruction := [
      .step ⟨1, none⟩ .start,
      .choice ⟨2, none⟩ { condition := "a", thenLabel := "yes" }
        [.fork ⟨3, none⟩ false [{ body := [.step ⟨4, none⟩ (.action "b" none)] }, { body := [] }]]
        [⟨"c1", none, []⟩]
        [.loop ⟨5, none⟩ { test := .after "d", condition := "e", exitLabel := "f" }
          [.step ⟨6, none⟩ .leave]],
      .step ⟨7, none⟩ .finish]
    print is = "start\nif (a) then (yes)\nfork\n:b;\nfork again\nend fork\nelseif (c1) then\n" ++
      "else\nrepeat :d;\nbreak\nrepeat while (e) not (f)\nendif\nend" ∧
    (∀ i ∈ walkAll is, i.Canonical) ∧ (walkAll is).map node = nodesFrom 0 (walkAll is).length ∧
    read (print is) = { instructions := is } := by
  intro is
  have hcanonical : ∀ i ∈ walkAll is, i.Canonical := by decide
  have hnodes : (walkAll is).map node = nodesFrom 0 (walkAll is).length := rfl
  exact ⟨by decide +kernel, hcanonical, hnodes, (read_print is hcanonical).2.2 hnodes⟩

end Diagram
end Activity
end UmlDraw
