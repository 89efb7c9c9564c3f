/-
# What every reading of an activity keeps

All that a line does to the tree is to append a step, to open a block, to go on with the next part
of a block, or to close one; besides, a connector may begin to wait and a lane may be opened.  A
property of readers that these steps keep holds of the reader behind every text.

The parts of a block that are read so far are what the closed block has inside, together with the
open list; only the instructions in front of the first case of a switch are dropped.

The main statements are

* `OpenBlock.exists_bodies_close`: what a block that is closed has inside;
* `Reader.Stable.read`: what a whole reading keeps.
-/
import UmlDraw.Activity.Reader
import UmlDraw.Proofs.Text.Result

namespace UmlDraw
namespace Activity

/-! ### The lists in a tree -/

namespace Instruction

/-- The lists of instructions that an instruction holds. -/
def bodies : Instruction → List (List Instruction)
  | step _ _ => []
  | choice _ _ first others last => first :: (others.map Branch.body ++ [last])
  | loop _ _ body => [body]
  | switch _ _ _ cases => cases.map Branch.body
  | fork _ _ branches => branches.map Branch.body
  | partition _ _ _ body => [body]

lemma walkBranches_eq (bs : List (Branch Instruction)) :
    walkBranches bs = (bs.map Branch.body).flatMap walkAll := by
  induction bs with
  | nil => rfl
  | cons b rest ih => rw [walkBranches, ih, List.map_cons, List.flatMap_cons]

lemma walk_eq (i : Instruction) : i.walk = i :: i.bodies.flatMap walkAll := by
  cases i with
  | step => rfl
  | choice n c first others last =>
    rw [walk, bodies, walkBranches_eq, List.flatMap_cons, List.flatMap_append,
      List.flatMap_singleton, List.append_assoc]
  | loop | partition => rw [walk, bodies, List.flatMap_singleton]
  | switch | fork => rw [walk, bodies, walkBranches_eq]

@[simp]
lemma walkAll_append (is js : List Instruction) :
    walkAll (is ++ js) = walkAll is ++ walkAll js := by
  induction is with
  | nil => rfl
  | cons i rest ih => rw [List.cons_append, walkAll, walkAll, ih, List.append_assoc]

@[simp]
lemma walkAll_singleton (i : Instruction) : walkAll [i] = i :: i.bodies.flatMap walkAll := by
  rw [walkAll, walkAll, List.append_nil, walk_eq]

end Instruction

/-! ### Open blocks -/

namespace OpenBlock

/-- The parts of an open block that are closed. -/
def parts : OpenBlock → List (List Instruction)
  | firstBranch _ | loop _ | partition _ _ => []
  | otherBranch _ first others _ _ | lastBranch _ first others =>
    first :: others.map Branch.body
  | switch _ _ cases _ => cases.map Branch.body
  | fork _ branches => branches.map Branch.body

/-- A test of a block that leaves its parts as they are. -/
def Ends (change : OpenBlock → Option OpenBlock) : Prop :=
  ∀ b b', change b = some b' → b'.parts = b.parts

/-- A test of a block that makes the open list, or nothing, its next part. -/
def GoesOn (change : List Instruction → OpenBlock → Option OpenBlock) : Prop :=
  ∀ body b b', change body b = some b' →
    ∃ new, b'.parts = b.parts ++ new ∧ (new = [] ∨ new = [body])

/-- A block that is closed holds its parts and the open list.  The open list of a switch without a
case is dropped; a decision that ends before its last branch has an empty one. -/
lemma exists_bodies_close (b : OpenBlock) (n : Node) (body : List Instruction) :
    ∃ new, (b.close n body).bodies = b.parts ++ new ∧
      (new = [] ∨ new = [body] ∨ new = [body, []]) := by
  cases b with
  | firstBranch => exact ⟨_, rfl, .inr (.inr rfl)⟩
  | otherBranch c first others condition label =>
    refine ⟨[body, []], ?_, .inr (.inr rfl)⟩
    simp [close, Instruction.bodies, parts]
  | lastBranch => exact ⟨[body], by simp [close, Instruction.bodies, parts], .inr (.inl rfl)⟩
  | loop | partition => exact ⟨_, rfl, .inr (.inl rfl)⟩
  | switch condition color cases label =>
    cases label with
    | none => exact ⟨[], by simp [close, closeCase, Instruction.bodies, parts], .inl rfl⟩
    | some label =>
      exact ⟨[body], by simp [close, closeCase, Instruction.bodies, parts], .inr (.inl rfl)⟩
  | fork isSplit branches =>
    exact ⟨[body], by simp [close, Instruction.bodies, parts], .inr (.inl rfl)⟩

lemma ends_endChoice : Ends endChoice := by
  intro b b' h
  cases b with
  | firstBranch | otherBranch | lastBranch => rw [← Option.some.inj h]
  | _ => cases h

lemma ends_endWhile (label : Option String) : Ends (endWhile label) := by
  intro b b' h
  cases b with
  | loop l =>
    obtain ⟨test, _, _, _, _⟩ := l
    cases test with
    | before => rw [← Option.some.inj h]; rfl
    | after => cases h
  | _ => cases h

lemma ends_repeatWhile (condition : String) (again out : Option String) :
    Ends (repeatWhile condition again out) := by
  intro b b' h
  cases b with
  | loop l =>
    obtain ⟨test, _, _, _, _⟩ := l
    cases test with
    | before => cases h
    | after => rw [← Option.some.inj h]; rfl
  | _ => cases h

lemma ends_endSwitch : Ends endSwitch := by
  intro b b' h
  cases b with
  | switch => rw [← Option.some.inj h]
  | _ => cases h

lemma ends_endFork (isSplit : Bool) : Ends (endFork isSplit) := by
  intro b b' h
  cases b with
  | fork isSplit' branches =>
    unfold endFork at h
    dsimp only at h
    split at h
    · rw [← Option.some.inj h]
    · cases h
  | _ => cases h

lemma ends_closePartition : Ends closePartition := by
  intro b b' h
  cases b with
  | partition => rw [← Option.some.inj h]
  | _ => cases h

lemma goesOn_elseIf (elseLabel : Option String) (condition : String) (label : Option String) :
    GoesOn (elseIf elseLabel condition label) := by
  intro body b b' h
  cases b with
  | firstBranch c => exact ⟨[body], by rw [← Option.some.inj h]; rfl, .inr rfl⟩
  | otherBranch c first others condition' label' =>
    exact ⟨[body], by rw [← Option.some.inj h]; simp [parts], .inr rfl⟩
  | _ => cases h

lemma goesOn_otherwise (elseLabel : Option String) : GoesOn (otherwise elseLabel) := by
  intro body b b' h
  cases b with
  | firstBranch c => exact ⟨[body], by rw [← Option.some.inj h]; rfl, .inr rfl⟩
  | otherBranch c first others condition' label' =>
    exact ⟨[body], by rw [← Option.some.inj h]; simp [parts], .inr rfl⟩
  | _ => cases h

lemma goesOn_nextCase (label : String) : GoesOn (nextCase label) := by
  intro body b b' h
  cases b with
  | switch condition color cases label' =>
    cases label' with
    | none => exact ⟨[], by rw [← Option.some.inj h]; simp [parts, closeCase], .inl rfl⟩
    | some label' => exact ⟨[body], by rw [← Option.some.inj h]; simp [parts, closeCase], .inr rfl⟩
  | _ => cases h

lemma goesOn_forkAgain (isSplit : Bool) : GoesOn (forkAgain isSplit) := by
  intro body b b' h
  cases b with
  | fork isSplit' branches =>
    unfold forkAgain at h
    dsimp only at h
    split at h
    · exact ⟨[body], by rw [← Option.some.inj h]; simp [parts], .inr rfl⟩
    · cases h
  | _ => cases h

end OpenBlock

/-! ### Steps of the reader -/

namespace Reader

/-- A waiting connector goes before a step that is no note. -/
lemma addStep_of_ne_note (r : Reader) {s : Step} (hs : ∀ n, s ≠ .note n) :
    r.addStep s =
      { r with
        count := r.count + 1, pending := none
        body := r.body ++ r.pendingSteps ++ [.step r.nextNode s] } := by
  cases s with
  | note n => exact absurd rfl (hs n)
  | _ => rfl

lemma exists_closeBlock_eq (r : Reader) (change : OpenBlock → Option OpenBlock) :
    ∃ body frames, r.closeBlock change = { r with body := body, frames := frames } := by
  unfold closeBlock
  split
  · exact ⟨_, _, rfl⟩
  · split
    · exact ⟨_, _, rfl⟩
    · exact ⟨_, _, rfl⟩

lemma exists_nextPart_eq (r : Reader)
    (change : List Instruction → OpenBlock → Option OpenBlock) :
    ∃ body frames, r.nextPart change = { r with body := body, frames := frames } := by
  unfold nextPart
  split
  · exact ⟨_, _, rfl⟩
  · split
    · exact ⟨_, _, rfl⟩
    · exact ⟨_, _, rfl⟩

/-- A connector waits for the next instruction. -/
def wait (r : Reader) (a : Arrow) : Reader :=
  { r with count := r.count + 1, pending := some (r.count + 1, a) }

/-- A property of readers is kept by all that a line does, if it appends no step but those of a
given kind. -/
structure Stable (P : Reader → Prop) (ok : Step → Prop) : Prop where
  start : P {}
  addStep : ∀ r s, ok s → P r → P (r.addStep s)
  openBlock : ∀ r b, b.parts = [] → P r → P (r.openBlock b)
  closeBlock : ∀ r change, OpenBlock.Ends change → P r → P (r.closeBlock change)
  nextPart : ∀ r change, OpenBlock.GoesOn change → P r → P (r.nextPart change)
  wait : ∀ r a, P r → P (r.wait a)
  openLane : ∀ r l, P r → P (r.openLane l)
  title : ∀ r title, P r → P { r with title := title }
  text : ∀ r text, P r → P { r with text := text }

namespace Stable

variable {P : Reader → Prop} {ok : Step → Prop} {r : Reader}

lemma apply (h : Stable P ok) (hr : P r) (line : Line) (hline : ∀ s, line = .step s → ok s) :
    P (r.apply line) := by
  cases line with
  | title s => exact h.title r _ hr
  | lane l => exact h.openLane r l hr
  | step s => exact h.addStep r s (hline s rfl) hr
  | text t => exact h.text r _ hr
  | choice | whileLoop | repeatLoop | switch | fork | partition => exact h.openBlock r _ rfl hr
  | elseIf => exact h.nextPart r _ (OpenBlock.goesOn_elseIf _ _ _) hr
  | otherwise => exact h.nextPart r _ (OpenBlock.goesOn_otherwise _) hr
  | case => exact h.nextPart r _ (OpenBlock.goesOn_nextCase _) hr
  | forkAgain => exact h.nextPart r _ (OpenBlock.goesOn_forkAgain _) hr
  | endChoice => exact h.closeBlock r _ OpenBlock.ends_endChoice hr
  | endWhile => exact h.closeBlock r _ (OpenBlock.ends_endWhile _) hr
  | repeatWhile => exact h.closeBlock r _ (OpenBlock.ends_repeatWhile _ _ _) hr
  | endSwitch => exact h.closeBlock r _ OpenBlock.ends_endSwitch hr
  | endFork => exact h.closeBlock r _ (OpenBlock.ends_endFork _) hr
  | closePartition => exact h.closeBlock r _ OpenBlock.ends_closePartition hr
  | arrow a => exact h.wait r a hr

/-- The steps that texts over several lines become. -/
lemma ok_endText {lines : List (List Char)} {line : SourceLine} {t : OpenText} {s : Step}
    (hnote : ∀ n, ok (.note n)) (haction : ∀ label color, ok (.action label color))
    (hs : Reader.endText lines line t = some s) : ok s := by
  cases t with
  | note =>
    unfold Reader.endText at hs
    dsimp only at hs
    split at hs
    · exact Option.some.inj hs ▸ hnote _
    · cases hs
  | action =>
    unfold Reader.endText at hs
    dsimp only at hs
    split at hs
    · exact Option.some.inj hs ▸ haction _ _
    · cases hs

lemma step (h : Stable P ok) (hnote : ∀ n, ok (.note n))
    (haction : ∀ label color, ok (.action label color)) (hr : P r) (line : SourceLine)
    (hline : ∀ s, Line.read? line.text = some (.step s) → ok s) : P (r.step line) := by
  unfold Reader.step
  split
  · next t lines _ =>
    split
    · next s hs =>
      exact h.addStep _ s (ok_endText hnote haction hs) (h.text r none hr)
    · exact h.text r _ hr
  · unfold Reader.readLine
    split
    · exact hr
    · split
      · next l hl => exact h.apply hr l fun s hs => hline s (hl.trans (congrArg some hs))
      · exact hr

/-- A property that every step keeps holds behind every text, if its lines append no step but those
of the given kind. -/
theorem read (h : Stable P ok) (hnote : ∀ n, ok (.note n))
    (haction : ∀ label color, ok (.action label color)) (lines : List SourceLine)
    (hlines : ∀ line ∈ lines, ∀ s, Line.read? line.text = some (.step s) → ok s) :
    P (lines.foldl Reader.step {}) :=
  List.foldlRecOn lines Reader.step h.start fun _ hr line hline =>
    h.step hnote haction hr line (hlines line hline)

end Stable
end Reader
end Activity
end UmlDraw
