/-
# The tree of an activity keeps the order of the text

Instructions are numbered in the order in which they are read, and the tree holds them in this
order at every depth.  A connector line is numbered when it is read but stands in front of the
instruction that it waited for, so it is left out of the order; its number is its own all the same.

The main statements are

* `Instruction.marks_unwind_sublist`: a tree holds no instructions but those that were read, in the
  order of reading;
* `Reader.stable_ordered` and `Reader.stable_leads`: what every step of the reader keeps;
* `Diagram.ordered_read`: numbers, order, connectors and lanes of the tree of a text.
-/
import Mathlib.Data.List.Nodup
import UmlDraw.Proofs.Activity.Invariant
import UmlDraw.Proofs.Data.Keyed

namespace UmlDraw
namespace Activity

/-! ### Marks of instructions -/

/-- What an instruction is apart from what is inside: its node, and the step, if it is one. -/
structure Mark where
  node : Node
  step : Option Step

namespace Mark

/-- The mark of a connector line. -/
def isArrow (m : Mark) : Bool :=
  match m.step with
  | some (.arrow _) => true
  | _ => false

/-- Two marks in order: their numbers differ, and that of the second one is greater unless one of
them is a connector line. -/
def Before (m m' : Mark) : Prop :=
  m.node.id ≠ m'.node.id ∧ (m.isArrow = false → m'.isArrow = false → m.node.id < m'.node.id)

end Mark

namespace Instruction

/-- The instruction is a connector line. -/
def isArrow : Instruction → Bool
  | step _ (.arrow _) => true
  | _ => false

/-- The instruction is a note. -/
def isNote : Instruction → Bool
  | step _ (.note _) => true
  | _ => false

/-- The mark of an instruction. -/
def mark : Instruction → Mark
  | step n s => ⟨n, some s⟩
  | i => ⟨i.node, none⟩

/-- The marks of instructions and of all instructions inside, in the order of the tree. -/
def marks (is : List Instruction) : List Mark :=
  (walkAll is).map mark

@[simp]
lemma node_mark (i : Instruction) : i.mark.node = i.node := by
  cases i <;> rfl

lemma isArrow_mark (i : Instruction) : i.mark.isArrow = i.isArrow := by
  cases i with
  | step n s => cases s <;> rfl
  | _ => rfl

@[simp]
lemma marks_nil : marks [] = [] := rfl

@[simp]
lemma marks_append (is js : List Instruction) : marks (is ++ js) = marks is ++ marks js := by
  rw [marks, walkAll_append, List.map_append, marks, marks]

@[simp]
lemma marks_singleton (i : Instruction) : marks [i] = i.mark :: i.bodies.flatMap marks := by
  rw [marks, walkAll_singleton, List.map_cons, List.map_flatMap]
  rfl

lemma mark_close (b : OpenBlock) (n : Node) (body : List Instruction) :
    (b.close n body).mark = ⟨n, none⟩ := by
  cases b <;> rfl

/-- A block that is closed holds what was read inside, in order. -/
lemma marks_close_sublist (b : OpenBlock) (n : Node) (body : List Instruction) :
    (marks [b.close n body]).Sublist (⟨n, none⟩ :: b.parts.flatMap marks ++ marks body) := by
  obtain ⟨new, hbodies, hnew⟩ := b.exists_bodies_close n body
  rw [marks_singleton, mark_close, hbodies, List.flatMap_append, List.cons_append]
  refine List.Sublist.cons_cons _ (List.Sublist.append_left ?_ _)
  rcases hnew with rfl | rfl | rfl <;> simp

/-! ### The lists of a tree -/

/-- Each connector line of a list is followed at once by an instruction of the flow. -/
def ArrowsLead (is : List Instruction) : Prop :=
  ∀ before i after, is = before ++ i :: after → i.isArrow = true →
    ∃ j after', after = j :: after' ∧ j.isArrow = false ∧ j.isNote = false

/-- All lists of instructions below a list. -/
def innerLists (is : List Instruction) : List (List Instruction) :=
  (walkAll is).flatMap bodies

/-- A list of instructions and all lists below it. -/
def lists (is : List Instruction) : List (List Instruction) :=
  is :: innerLists is

@[simp]
lemma innerLists_nil : innerLists [] = [] := rfl

@[simp]
lemma innerLists_append (is js : List Instruction) :
    innerLists (is ++ js) = innerLists is ++ innerLists js := by
  rw [innerLists, walkAll_append, List.flatMap_append, innerLists, innerLists]

lemma mem_innerLists_singleton {i : Instruction} {is : List Instruction} :
    is ∈ innerLists [i] ↔ ∃ body ∈ i.bodies, is ∈ lists body := by
  simp only [innerLists, walkAll_singleton, List.flatMap_cons, List.mem_append, List.mem_flatMap,
    lists, List.mem_cons]
  constructor
  · rintro (h | ⟨j, ⟨body, hbody, hj⟩, his⟩)
    · exact ⟨is, h, .inl rfl⟩
    · exact ⟨body, hbody, .inr ⟨j, hj, his⟩⟩
  · rintro ⟨body, hbody, rfl | ⟨j, hj, his⟩⟩
    · exact .inl hbody
    · exact .inr ⟨j, ⟨body, hbody, hj⟩, his⟩

lemma arrowsLead_nil : ArrowsLead [] := by
  intro before i after h
  exact absurd h.symm (by simp)

lemma arrowsLead_singleton {i : Instruction} (h : i.isArrow = false) : ArrowsLead [i] := by
  intro before j after heq hj
  obtain ⟨-, rfl, -⟩ := List.append_eq_singleton_iff.1 heq.symm |>.resolve_right (by simp)
  exact absurd hj (by simp [h])

/-- A connector line may be put in front of an instruction of the flow. -/
lemma ArrowsLead.cons {i : Instruction} {is : List Instruction} (h : ArrowsLead (i :: is))
    (harrow : i.isArrow = false) (hnote : i.isNote = false) (a : Instruction) :
    ArrowsLead (a :: i :: is) := by
  intro before j after heq hj
  cases before with
  | nil =>
    obtain ⟨-, rfl⟩ := List.cons.inj heq
    exact ⟨i, is, rfl, harrow, hnote⟩
  | cons k before => exact h before j after (List.cons.inj heq).2 hj

lemma ArrowsLead.append {is js : List Instruction} (h : ArrowsLead is) (h' : ArrowsLead js) :
    ArrowsLead (is ++ js) := by
  intro before j after heq hj
  rcases List.append_eq_append_iff.1 heq with ⟨c, rfl, hjs⟩ | ⟨c, rfl, hafter⟩
  · exact h' c j after hjs hj
  · cases c with
    | nil => exact h' [] j after hafter.symm hj
    | cons k c =>
      -- the connector line stands in the first list, and so does what follows it
      obtain ⟨rfl, rfl⟩ := List.cons.inj hafter
      obtain ⟨k, rest, rfl, hk⟩ := h before j c rfl hj
      exact ⟨k, rest ++ js, rfl, hk⟩

/-- In all lists of a tree each connector line is followed by an instruction of the flow. -/
def Leading (is : List Instruction) : Prop :=
  ∀ l ∈ lists is, ArrowsLead l

lemma leading_iff {is : List Instruction} :
    Leading is ↔ ArrowsLead is ∧ ∀ l ∈ innerLists is, ArrowsLead l := by
  rw [Leading, lists, List.forall_mem_cons]

lemma leading_nil : Leading [] :=
  leading_iff.2 ⟨arrowsLead_nil, by simp⟩

end Instruction

/-! ### Order -/

/-- The marks of open blocks and of the instructions before them, in the order of the tree. -/
def Frame.allMarks : List Frame → List Mark
  | [] => []
  | f :: rest =>
    allMarks rest ++ (Instruction.marks f.before ++
      ⟨f.node, none⟩ :: f.block.parts.flatMap Instruction.marks)

namespace Reader

/-- The marks of all that was read, in the order of the tree. -/
def marks (r : Reader) : List Mark :=
  Frame.allMarks r.frames ++ Instruction.marks r.body

/-- The mark of the waiting connector. -/
def pendingMarks (r : Reader) : List Mark :=
  Instruction.marks r.pendingSteps

/-- A tree holds no instructions but those that were read, in the order of reading. -/
lemma marks_unwind_sublist (frames : List Frame) (body : List Instruction) :
    (Instruction.marks (unwind frames body)).Sublist
      (Frame.allMarks frames ++ Instruction.marks body) := by
  induction frames generalizing body with
  | nil => exact List.Sublist.refl _
  | cons f rest ih =>
    refine (ih _).trans ?_
    rw [Frame.allMarks, List.append_assoc, Instruction.marks_append, List.append_assoc]
    refine List.Sublist.append_left (List.Sublist.append_left ?_ _) _
    exact Instruction.marks_close_sublist f.block f.node body

lemma marks_closeBlock_sublist (r : Reader) {change : OpenBlock → Option OpenBlock}
    (hchange : OpenBlock.Ends change) : ((r.closeBlock change).marks).Sublist r.marks := by
  unfold closeBlock
  split
  · exact List.Sublist.refl _
  · next f rest hframes =>
    split
    · exact List.Sublist.refl _
    · next b hb =>
      rw [marks, marks, hframes, Frame.allMarks, Instruction.marks_append, List.append_assoc,
        List.append_assoc, ← hchange _ _ hb]
      refine List.Sublist.append_left (List.Sublist.append_left ?_ _) _
      exact Instruction.marks_close_sublist b f.node r.body

lemma marks_nextPart_sublist (r : Reader) {change : List Instruction → OpenBlock → Option OpenBlock}
    (hchange : OpenBlock.GoesOn change) : ((r.nextPart change).marks).Sublist r.marks := by
  unfold nextPart
  split
  · exact List.Sublist.refl _
  · next f rest hframes =>
    split
    · exact List.Sublist.refl _
    · next b hb =>
      obtain ⟨new, hparts, hnew⟩ := hchange _ _ _ hb
      rw [marks, marks, hframes, Frame.allMarks, Frame.allMarks, hparts, List.flatMap_append,
        Instruction.marks_nil, List.append_nil, List.append_assoc, List.append_assoc,
        List.cons_append]
      refine List.Sublist.append_left (List.Sublist.append_left (List.Sublist.cons_cons _ ?_) _) _
      refine List.Sublist.append_left ?_ _
      rcases hnew with rfl | rfl <;> simp

lemma marks_addStep_note (r : Reader) (n : Note) :
    (r.addStep (.note n)).marks = r.marks ++ [⟨r.nextNode, some (.note n)⟩] := by
  simp [addStep, marks, Instruction.mark, Instruction.bodies]

lemma marks_addStep (r : Reader) {s : Step} (hs : ∀ n, s ≠ .note n) :
    (r.addStep s).marks = r.marks ++ (r.pendingMarks ++ [⟨r.nextNode, some s⟩]) := by
  rw [addStep_of_ne_note r hs]
  simp [marks, pendingMarks, Instruction.mark, Instruction.bodies]

lemma marks_openBlock (r : Reader) {b : OpenBlock} (hb : b.parts = []) :
    (r.openBlock b).marks = r.marks ++ (r.pendingMarks ++ [⟨r.nextNode, none⟩]) := by
  simp [openBlock, marks, pendingMarks, Frame.allMarks, hb]

/-- What was read is numbered in order, without numbers beyond the last one, and stands in lanes
that were opened; the waiting connector has a number of its own. -/
structure Ordered (r : Reader) : Prop where
  before : r.marks.Pairwise Mark.Before
  bound : ∀ m ∈ r.marks, 0 < m.node.id ∧ m.node.id ≤ r.count
  lanes : ∀ m ∈ r.marks, ∀ l ∈ m.node.lane, l ∈ r.lanes.keys
  lane : ∀ l ∈ r.lane, l ∈ r.lanes.keys
  pending : ∀ p ∈ r.pending, 0 < p.1 ∧ p.1 ≤ r.count ∧ ∀ m ∈ r.marks, m.node.id ≠ p.1

namespace Ordered

variable {r r' : Reader}

lemma of_sublist (h : r.Ordered) (hmarks : r'.marks.Sublist r.marks) (hcount : r'.count = r.count)
    (hlanes : r'.lanes = r.lanes) (hlane : r'.lane = r.lane) (hpending : r'.pending = r.pending) :
    r'.Ordered where
  before := h.before.sublist hmarks
  bound := fun m hm => hcount ▸ h.bound m (hmarks.subset hm)
  lanes := fun m hm => hlanes ▸ h.lanes m (hmarks.subset hm)
  lane := hlane ▸ hlanes ▸ h.lane
  pending := by
    intro p hp
    rw [hpending] at hp
    obtain ⟨hpos, hle, hne⟩ := h.pending p hp
    exact ⟨hpos, hcount ▸ hle, fun m hm => hne m (hmarks.subset hm)⟩

/-- Marks that may be appended to what was read: their numbers are new. -/
lemma of_append (h : r.Ordered) {new : List Mark} (hmarks : r'.marks = r.marks ++ new)
    (hcount : r'.count = r.count + 1) (hlanes : r'.lanes = r.lanes) (hlane : r'.lane = r.lane)
    (hnew : new.Pairwise Mark.Before)
    (hbefore : ∀ m ∈ r.marks, ∀ m' ∈ new, m.Before m')
    (hbound : ∀ m ∈ new, 0 < m.node.id ∧ m.node.id ≤ r.count + 1)
    (hnode : ∀ m ∈ new, m.node.lane = r.lane)
    (hpending : ∀ p ∈ r'.pending, r.pending = some p ∧ ∀ m ∈ new, m.node.id ≠ p.1) :
    r'.Ordered where
  before := by
    rw [hmarks]
    exact List.pairwise_append.2 ⟨h.before, hnew, hbefore⟩
  bound := by
    rw [hmarks, hcount]
    intro m hm
    rcases List.mem_append.1 hm with hm | hm
    · exact ⟨(h.bound m hm).1, Nat.le_succ_of_le (h.bound m hm).2⟩
    · exact hbound m hm
  lanes := by
    rw [hmarks, hlanes]
    intro m hm
    rcases List.mem_append.1 hm with hm | hm
    · exact h.lanes m hm
    · rw [hnode m hm]
      exact h.lane
  lane := hlane ▸ hlanes ▸ h.lane
  pending := by
    intro p hp
    obtain ⟨hp, hne⟩ := hpending p hp
    obtain ⟨hpos, hle, hne'⟩ := h.pending p hp
    refine ⟨hpos, hcount ▸ Nat.le_succ_of_le hle, ?_⟩
    rw [hmarks]
    exact List.forall_mem_append.2 ⟨hne', hne⟩

/-- The waiting connector and the next instruction behind it. -/
lemma of_next (h : r.Ordered) {s : Option Step}
    (hmarks : r'.marks = r.marks ++ (r.pendingMarks ++ [⟨r.nextNode, s⟩]))
    (hcount : r'.count = r.count + 1) (hlanes : r'.lanes = r.lanes) (hlane : r'.lane = r.lane)
    (hpending : r'.pending = none) : r'.Ordered := by
  have hnext : ∀ m : Mark, m.node.id ≤ r.count → m.Before ⟨r.nextNode, s⟩ := by
    intro m hm
    have hlt : m.node.id < r.nextNode.id := Nat.lt_succ_of_le hm
    exact ⟨Nat.ne_of_lt hlt, fun _ _ => hlt⟩
  have hnone : ∀ p ∈ r'.pending, False := by simp [hpending]
  cases hp : r.pending with
  | none =>
    have hsteps : r.pendingMarks = [] := by simp [pendingMarks, pendingSteps, hp]
    rw [hsteps, List.nil_append] at hmarks
    refine h.of_append hmarks hcount hlanes hlane (List.pairwise_singleton _ _) ?_ ?_ ?_
      fun p hp => (hnone p hp).elim
    · simpa using fun m hm => hnext m (h.bound m hm).2
    · simp [nextNode]
    · simp [nextNode]
  | some p =>
    obtain ⟨hpos, hle, hne⟩ := h.pending p hp
    have hsteps : r.pendingMarks = [⟨⟨p.1, r.lane⟩, some (.arrow p.2)⟩] := by
      simp [pendingMarks, pendingSteps, hp, Instruction.mark, Instruction.bodies]
    rw [hsteps, List.singleton_append] at hmarks
    refine h.of_append hmarks hcount hlanes hlane ?_ ?_ ?_ ?_ fun p hp => (hnone p hp).elim
    · simpa using hnext _ hle
    · -- a connector line has a number of its own, but stands out of order
      intro m hm m' hm'
      rcases List.mem_cons.1 hm' with rfl | hm'
      · exact ⟨hne m hm, fun _ harrow => by cases harrow⟩
      · exact List.mem_singleton.1 hm' ▸ hnext m (h.bound m hm).2
    · simpa [nextNode] using ⟨hpos, Nat.le_succ_of_le hle⟩
    · simp [nextNode]

end Ordered

/-- Every step of the reader keeps the order. -/
theorem stable_ordered : Stable Ordered fun _ => True where
  start := ⟨List.Pairwise.nil, by simp [marks, Frame.allMarks], by simp [marks, Frame.allMarks],
    by simp, by simp⟩
  addStep := by
    intro r s _ h
    by_cases hs : ∃ n, s = .note n
    · obtain ⟨n, rfl⟩ := hs
      refine h.of_append (marks_addStep_note r n) rfl rfl rfl (List.pairwise_singleton _ _)
        ?_ ?_ ?_ ?_
      · intro m hm m' hm'
        rw [List.mem_singleton.1 hm']
        have hlt : m.node.id < r.nextNode.id := Nat.lt_succ_of_le (h.bound m hm).2
        exact ⟨Nat.ne_of_lt hlt, fun _ _ => hlt⟩
      · simp [nextNode]
      · simp [nextNode]
      · intro p hp
        refine ⟨hp, fun m hm => ?_⟩
        rw [List.mem_singleton.1 hm]
        exact Nat.ne_of_gt (Nat.lt_succ_of_le (h.pending p hp).2.1)
    · have hmarks := marks_addStep r fun n hn => hs ⟨n, hn⟩
      rw [addStep_of_ne_note r fun n hn => hs ⟨n, hn⟩] at hmarks ⊢
      exact h.of_next hmarks rfl rfl rfl rfl
  openBlock := by
    intro r b hb h
    exact h.of_next (marks_openBlock r hb) rfl rfl rfl rfl
  closeBlock := by
    intro r change hchange h
    have hmarks := marks_closeBlock_sublist r hchange
    obtain ⟨body, frames, heq⟩ := exists_closeBlock_eq r change
    rw [heq] at hmarks ⊢
    exact h.of_sublist hmarks rfl rfl rfl rfl
  nextPart := by
    intro r change hchange h
    have hmarks := marks_nextPart_sublist r hchange
    obtain ⟨body, frames, heq⟩ := exists_nextPart_eq r change
    rw [heq] at hmarks ⊢
    exact h.of_sublist hmarks rfl rfl rfl rfl
  wait := by
    intro r a h
    refine ⟨h.before, fun m hm => ?_, h.lanes, h.lane, ?_⟩
    · exact ⟨(h.bound m hm).1, Nat.le_succ_of_le (h.bound m hm).2⟩
    · intro p hp
      obtain rfl := Option.some.inj hp
      exact ⟨Nat.succ_pos _, Nat.le_refl _, fun m hm =>
        Nat.ne_of_lt (Nat.lt_succ_of_le (h.bound m hm).2)⟩
  openLane := by
    intro r l h
    have hkeys : ∀ name,
        name ∈ (r.openLane l).lanes.keys ↔ name ∈ r.lanes.keys ∨ name = l.name := by
      intro name
      unfold openLane
      dsimp only
      split
      · next hl =>
        refine ⟨.inl, fun hname => hname.elim id ?_⟩
        rintro rfl
        exact Keyed.contains_iff.1 hl
      · exact Keyed.mem_keys_insert
    refine ⟨h.before, h.bound,
      fun m hm name hname => (hkeys name).2 (.inl (h.lanes m hm name hname)),
      fun name hname => ?_, h.pending⟩
    exact (hkeys name).2 (.inr (Option.some.inj hname).symm)
  title := fun _ _ h => ⟨h.before, h.bound, h.lanes, h.lane, h.pending⟩
  text := fun _ _ h => ⟨h.before, h.bound, h.lanes, h.lane, h.pending⟩

lemma ok_pendingMarks {ok : Step → Prop} (harrow : ∀ a, ok (.arrow a)) (r : Reader) :
    ∀ m ∈ r.pendingMarks, ∀ s, m.step = some s → ok s := by
  unfold pendingMarks pendingSteps
  cases r.pending with
  | none => simp
  | some p =>
    intro m hm s hs
    rw [List.mem_singleton.1 hm] at hs
    exact Option.some.inj hs ▸ harrow p.2

/-- All steps that were read are of a certain kind, if all that are appended are. -/
theorem stable_steps {ok : Step → Prop} (harrow : ∀ a, ok (.arrow a)) :
    Stable (fun r => ∀ m ∈ r.marks, ∀ s, m.step = some s → ok s) ok where
  start := by simp [marks, Frame.allMarks]
  addStep := by
    intro r s hs h
    have hstep : ∀ m : Mark, m = ⟨r.nextNode, some s⟩ → ∀ s', m.step = some s' → ok s' := by
      rintro _ rfl s' hs'
      exact Option.some.inj hs' ▸ hs
    by_cases hnote : ∃ n, s = .note n
    · obtain ⟨n, rfl⟩ := hnote
      rw [marks_addStep_note, List.forall_mem_append]
      exact ⟨h, fun m hm => hstep m (List.mem_singleton.1 hm)⟩
    · rw [marks_addStep r fun n hn => hnote ⟨n, hn⟩, List.forall_mem_append,
        List.forall_mem_append]
      exact ⟨h, ok_pendingMarks harrow r, fun m hm => hstep m (List.mem_singleton.1 hm)⟩
  openBlock := by
    intro r b hb h
    rw [marks_openBlock r hb, List.forall_mem_append, List.forall_mem_append]
    refine ⟨h, ok_pendingMarks harrow r, ?_⟩
    simp
  closeBlock := fun r _ hchange h m hm => h m ((marks_closeBlock_sublist r hchange).subset hm)
  nextPart := fun r _ hchange h m hm => h m ((marks_nextPart_sublist r hchange).subset hm)
  wait := fun _ _ h => h
  openLane := fun _ _ h => h
  title := fun _ _ h => h
  text := fun _ _ h => h

end Reader

/-! ### Connector lines -/

namespace Instruction

/-- The lists of a step that is appended are those that were there. -/
lemma Leading.append_steps {is steps : List Instruction} (h : Leading is)
    (hlead : ArrowsLead (is ++ steps)) (hsteps : innerLists steps = []) :
    Leading (is ++ steps) := by
  rw [leading_iff, innerLists_append, hsteps, List.append_nil]
  exact ⟨hlead, (leading_iff.1 h).2⟩

end Instruction

open Instruction

/-- In the lists in front of a block and in its parts each connector line is followed by an
instruction of the flow; the last one in front may be followed by the block. -/
structure Frame.Leads (f : Frame) : Prop where
  before : ∀ i : Instruction, i.isArrow = false → i.isNote = false → ArrowsLead (f.before ++ [i])
  inner : ∀ l ∈ innerLists f.before, ArrowsLead l
  parts : ∀ part ∈ f.block.parts, Leading part

/-- A block that is closed stands behind what was in front of it. -/
lemma Frame.Leads.close {f : Frame} (h : f.Leads) {body : List Instruction} (hbody : Leading body) :
    Leading (f.before ++ [f.block.close f.node body]) := by
  obtain ⟨new, hbodies, hnew⟩ := f.block.exists_bodies_close f.node body
  have hflow : (f.block.close f.node body).isArrow = false ∧
      (f.block.close f.node body).isNote = false := by
    cases f.block <;> exact ⟨rfl, rfl⟩
  rw [leading_iff, innerLists_append, List.forall_mem_append]
  refine ⟨h.before _ hflow.1 hflow.2, h.inner, fun l hl => ?_⟩
  obtain ⟨part, hpart, hl⟩ := mem_innerLists_singleton.1 hl
  have hnewParts : ∀ part ∈ new, Leading part := by
    rcases hnew with rfl | rfl | rfl <;> simp [hbody, leading_nil]
  rw [hbodies, List.mem_append] at hpart
  exact (hpart.elim (h.parts part) (hnewParts part)) l hl

namespace Reader

/-- In all lists that were read each connector line is followed by an instruction of the flow. -/
structure Leads (r : Reader) : Prop where
  body : Leading r.body
  frames : ∀ f ∈ r.frames, f.Leads

/-- The waiting connector and an instruction of the flow may be put behind the open list. -/
lemma Leads.arrowsLead_next {r : Reader} (h : r.Leads) {i : Instruction}
    (harrow : i.isArrow = false) (hnote : i.isNote = false) :
    ArrowsLead (r.body ++ r.pendingSteps ++ [i]) := by
  have hi := arrowsLead_singleton harrow
  rw [List.append_assoc]
  refine (leading_iff.1 h.body).1.append ?_
  unfold pendingSteps
  cases r.pending with
  | none => exact hi
  | some p => exact hi.cons harrow hnote _

lemma innerLists_pendingSteps (r : Reader) : innerLists r.pendingSteps = [] := by
  unfold pendingSteps
  cases r.pending <;> rfl

/-- Every step of the reader leaves the connector lines in their places, if no line is a connector
line by itself. -/
theorem stable_leads : Stable Leads fun s => ∀ a, s ≠ .arrow a where
  start := ⟨leading_nil, by simp⟩
  addStep := by
    intro r s hs h
    by_cases hnote : ∃ n, s = .note n
    · obtain ⟨n, rfl⟩ := hnote
      refine ⟨h.body.append_steps ?_ rfl, h.frames⟩
      exact (leading_iff.1 h.body).1.append (arrowsLead_singleton rfl)
    · rw [addStep_of_ne_note r fun n hn => hnote ⟨n, hn⟩]
      have hflow : (Instruction.step r.nextNode s).isArrow = false ∧
          (Instruction.step r.nextNode s).isNote = false := by
        cases s with
        | arrow a => exact absurd rfl (hs a)
        | note n => exact absurd ⟨n, rfl⟩ hnote
        | _ => exact ⟨rfl, rfl⟩
      have hlead := h.arrowsLead_next hflow.1 hflow.2
      rw [List.append_assoc] at hlead
      refine ⟨?_, h.frames⟩
      change Leading (r.body ++ r.pendingSteps ++ _)
      rw [List.append_assoc]
      exact h.body.append_steps hlead (by rw [innerLists_append, innerLists_pendingSteps]; rfl)
  openBlock := by
    intro r b hb h
    refine ⟨leading_nil, List.forall_mem_cons.2 ⟨⟨?_, ?_, ?_⟩, h.frames⟩⟩
    · exact fun i harrow hnote => h.arrowsLead_next harrow hnote
    · rw [innerLists_append, innerLists_pendingSteps, List.append_nil]
      exact (leading_iff.1 h.body).2
    · simp [hb]
  closeBlock := by
    intro r change hchange h
    unfold closeBlock
    split
    · exact h
    · next f rest hframes =>
      obtain ⟨hf, hrest⟩ := List.forall_mem_cons.1 (hframes ▸ h.frames)
      split
      · exact h
      · next b hb =>
        have hb' : Frame.Leads { f with block := b } :=
          ⟨hf.before, hf.inner, (hchange _ _ hb).symm ▸ hf.parts⟩
        exact ⟨hb'.close h.body, hrest⟩
  nextPart := by
    intro r change hchange h
    unfold nextPart
    split
    · exact h
    · next f rest hframes =>
      obtain ⟨hf, hrest⟩ := List.forall_mem_cons.1 (hframes ▸ h.frames)
      split
      · exact h
      · next b hb =>
        obtain ⟨new, hparts, hnew⟩ := hchange _ _ _ hb
        have hnewParts : ∀ part ∈ new, Leading part := by
          rcases hnew with rfl | rfl <;> simp [h.body]
        refine ⟨leading_nil, List.forall_mem_cons.2 ⟨?_, hrest⟩⟩
        refine ⟨hf.before, hf.inner, ?_⟩
        rw [hparts]
        exact List.forall_mem_append.2 ⟨hf.parts, hnewParts⟩
  wait := fun _ _ h => ⟨h.body, h.frames⟩
  openLane := fun _ _ h => ⟨h.body, h.frames⟩
  title := fun _ _ h => ⟨h.body, h.frames⟩
  text := fun _ _ h => ⟨h.body, h.frames⟩

lemma leading_unwind {frames : List Frame} (hframes : ∀ f ∈ frames, f.Leads)
    {body : List Instruction} (hbody : Leading body) : Leading (unwind frames body) := by
  induction frames generalizing body with
  | nil => exact hbody
  | cons f rest ih =>
    obtain ⟨hf, hrest⟩ := List.forall_mem_cons.1 hframes
    exact ih hrest (hf.close hbody)

end Reader

namespace Line

open Token Scan

instance : semicolonEnd.Honest := by
  unfold semicolonEnd
  infer_instance

instance : labelAtEnd.Honest := by
  unfold labelAtEnd
  infer_instance

instance : colorBefore.Honest := by
  unfold colorBefore
  infer_instance

instance : isWord.Honest := by
  refine Honest.anyOf ?_
  simp only [List.forall_mem_cons, List.not_mem_nil, false_implies, implies_true, and_true]
  exact ⟨inferInstance, inferInstance⟩

instance (words : List String) : (alone words).Honest := by
  unfold alone
  infer_instance

instance (words : List String) : (aloneSemicolon words).Honest := by
  unfold aloneSemicolon
  infer_instance

instance : answers.Honest := by
  refine ⟨Yields.either ?_ ?_⟩
  all_goals repeat refine Yields.bind fun _ => ?_
  all_goals exact Yields.pure trivial

instance : backLabel.Honest := by
  unfold backLabel
  infer_instance

instance : noteHead.Honest := by
  refine ⟨?_⟩
  unfold noteHead
  repeat refine Yields.bind fun _ => ?_
  exact Yields.pure trivial

instance : labelToSemicolon.Honest := by
  unfold labelToSemicolon
  infer_instance

instance : actionColor.Honest := by
  unfold actionColor
  infer_instance

instance : styleWord.Honest := by
  refine Honest.anyOf ?_
  simp only [List.forall_mem_cons, List.not_mem_nil, false_implies, implies_true, and_true]
  exact ⟨inferInstance, inferInstance, inferInstance, inferInstance, inferInstance, inferInstance,
    inferInstance, inferInstance, inferInstance⟩

instance : styleWords.Honest := by
  unfold styleWords
  infer_instance

/-- No form of a line is a connector line in place of a step: a connector waits. -/
lemma ne_arrow_of_read? {s : List Char} {step : Step} (h : read? s = some (.step step))
    (a : Arrow) : step ≠ .arrow a := by
  have hforms : ∀ form ∈ forms, form.Yields fun l => ∀ a, l ≠ .step (.arrow a) := by
    simp only [forms, List.forall_mem_cons, List.not_mem_nil, false_implies, implies_true, and_true]
    unfold readTitle readLane readStep readClose readElseIf readOtherwise readEndWhile
      readRepeatWhile readEndFork readEndSplit readClosePartition readChoice readChoiceIs readWhile
      readRepeat readSwitch readCase readFork readPartition readNote readNoteStart readBackward
      readAction readActionStart readArrow
    -- each form ends with a line of its own
    refine ⟨?_, ?_, ?_, ?_, ?_, ?_, ?_, ?_, ?_, ?_, ?_, ?_, ?_, ?_, ?_, ?_, ?_, ?_, ?_, ?_, ?_, ?_,
      ?_, ?_, ?_, ?_, ?_, ?_, ?_, ?_, ?_, ?_, ?_, ?_⟩
    all_goals repeat first | refine Yields.bind fun _ => ?_ | split
    all_goals exact Yields.pure nofun
  intro h'
  exact (Yields.anyOf hforms).of_whole h a (congrArg Line.step h')

end Line

/-! ### The tree of a text -/

namespace Diagram

/-- All lists of instructions of a diagram. -/
def lists (d : Diagram) : List (List Instruction) :=
  Instruction.lists d.instructions

/-- In the tree of a text the numbers of instructions are positive and different from each other,
and leaving connector lines out they grow in the order of the tree.  In each list of the tree a
connector line is followed at once by an instruction of the flow, and every instruction that stands
in a lane stands in one of the diagram. -/
theorem ordered_read (text : String) :
    let d := read text
    let is := walkAll d.instructions
    (∀ i ∈ is, 0 < i.node.id) ∧ (is.map fun i => i.node.id).Nodup ∧
      ((is.filter fun i => !i.isArrow).map fun i => i.node.id).Pairwise (· < ·) ∧
      (∀ l ∈ d.lists, ArrowsLead l) ∧
      ∀ i ∈ is, ∀ lane, i.node.lane = some lane → lane ∈ d.lanes.keys := by
  intro d is
  have hordered := Reader.stable_ordered.read (fun _ => trivial) (fun _ _ => trivial)
    (Source.lines text) fun _ _ _ _ => trivial
  have hleads := Reader.stable_leads.read (fun _ => nofun) (fun _ _ => nofun) (Source.lines text)
    fun line _ s hs a => Line.ne_arrow_of_read? hs a
  generalize hr : (Source.lines text).foldl Reader.step {} = r at hordered hleads
  have hd : d = r.finish := congrArg Reader.finish hr
  have hsub : (is.map mark).Sublist r.marks := by
    rw [show is = walkAll d.instructions from rfl, hd]
    exact Reader.marks_unwind_sublist r.frames r.body
  have hmem : ∀ i ∈ is, i.mark ∈ r.marks := fun i hi =>
    hsub.subset (List.mem_map_of_mem hi)
  have hbefore : is.Pairwise fun i j => i.mark.Before j.mark :=
    List.pairwise_map.1 (hordered.before.sublist hsub)
  refine ⟨fun i hi => ?_, ?_, ?_, ?_, fun i hi lane hlane => ?_⟩
  · simpa using (hordered.bound _ (hmem i hi)).1
  · rw [List.Nodup, List.pairwise_map]
    exact hbefore.imp fun h => by simpa using h.1
  · rw [List.pairwise_map, List.pairwise_filter]
    refine hbefore.imp fun {i j} h hi hj => ?_
    have hlt := h.2 (by simpa [isArrow_mark] using hi) (by simpa [isArrow_mark] using hj)
    simpa using hlt
  · rw [hd]
    exact Reader.leading_unwind hleads.frames hleads.body
  · rw [hd]
    exact hordered.lanes _ (hmem i hi) lane (by simpa using hlane)

end Diagram
end Activity
end UmlDraw
