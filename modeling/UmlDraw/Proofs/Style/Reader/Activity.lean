/-
# The colors of an activity diagram that is read

A block keeps the color of the line that opened it while its parts are read, and the color of a
connector waits with the connector.

The main statements are

* `Line.paints_of_read?`: the colors of a line;
* `Reader.Paints.step`: a line keeps what is known of the colors so far;
* `Diagram.paints_read`: the colors of the diagram.
-/
import UmlDraw.Proofs.Activity.Order
import UmlDraw.Proofs.Style.Activity
import UmlDraw.Proofs.Style.Token

namespace UmlDraw
namespace Activity

open Scan
open Color (Fits fits_none)
open Style (Unbroken)

variable {S : String → Prop}

/-- The color of a step. -/
def Step.color? : Step → Option String
  | action _ color => color
  | arrow a => a.color
  | note n => n.color
  | _ => none

lemma Instruction.color?_step (n : Node) (s : Step) : (Instruction.step n s).color? = s.color? := by
  cases s <;> rfl

/-! ### Lines -/

/-- The color of a text that goes on is as described. -/
def OpenText.Paints (S : String → Prop) : OpenText → Prop
  | note _ color _ => Fits S color
  | action color _ => Fits S color

/-- The colors that a line writes are as described. -/
def Line.Paints (S : String → Prop) : Line → Prop
  | .lane l => Fits S l.color
  | .step s => Fits S s.color?
  | .text t => t.Paints S
  | .choice c => Fits S c.color
  | .whileLoop l | .repeatLoop l => Fits S l.color
  | .switch _ color | .partition _ color => Fits S color
  | .arrow a => Fits S a.color
  | _ => True

namespace Line

/-- A color that something follows before the rest of the line, if there is one. -/
lemma yields_colorAnd {next : Scan Unit} [next.Honest] : (Scan.optional do
    let c ← Token.color
    next
    pure c).Yields (Fits Unbroken) :=
  Color.yields_optional (Token.yields_color.bindOf fun _ hc => Yields.bind fun _ => Yields.pure hc)

lemma yields_colorBefore : colorBefore.Yields (Fits Unbroken) := by
  have hbefore : (do
      let c ← Token.color
      Scan.blanks
      let _ ← Scan.char ':'
      pure c : Scan String).Yields Unbroken :=
    Token.yields_color.bindOf fun _ hc => Yields.bind fun _ => Yields.bind fun _ => Yields.pure hc
  exact (Color.yields_optional hbefore).bindOf fun c hc => Yields.bind fun _ => Yields.pure hc

lemma yields_actionColor : actionColor.Yields (Fits Unbroken) :=
  yields_colorAnd.bindOf fun _ hc => Yields.bind fun _ => Yields.pure hc

lemma yields_noteHead : noteHead.Yields fun r => Fits Unbroken r.2.2 := by
  unfold noteHead
  iterate 5 refine Yields.bind fun _ => ?_
  exact yields_colorAnd.bindOf fun c hc => Yields.pure hc

lemma yields_lane : readLane.Yields (Paints Unbroken) := by
  have hcolor : (do
      let c ← Token.color
      let _ ← Scan.char '|'
      pure c : Scan String).Yields Unbroken :=
    Token.yields_color.bindOf fun _ hc => Yields.bind fun _ => Yields.pure hc
  unfold readLane
  refine Yields.bind fun _ => (Color.yields_optional hcolor).bindOf fun c hc => ?_
  iterate 4 refine Yields.bind fun _ => ?_
  exact Yields.pure hc

/-- The lines that open a block with a color in front. -/
lemma yields_blocks : ∀ p ∈ [readChoice, readChoiceIs, readWhile, readRepeat, readSwitch],
    p.Yields (Paints Unbroken) := by
  simp only [List.forall_mem_cons]
  refine ⟨?_, ?_, ?_, ?_, ?_, List.forall_mem_nil _⟩
  · unfold readChoice
    refine yields_colorBefore.bindOf fun c hc => ?_
    iterate 6 refine Yields.bind fun _ => ?_
    exact Yields.pure hc
  · unfold readChoiceIs
    refine yields_colorBefore.bindOf fun c hc => ?_
    iterate 10 refine Yields.bind fun _ => ?_
    exact Yields.pure hc
  · unfold readWhile
    refine yields_colorBefore.bindOf fun c hc => ?_
    iterate 6 refine Yields.bind fun _ => ?_
    exact Yields.pure hc
  · unfold readRepeat
    refine yields_colorBefore.bindOf fun c hc => ?_
    iterate 4 refine Yields.bind fun _ => ?_
    exact Yields.pure hc
  · unfold readSwitch
    refine yields_colorBefore.bindOf fun c hc => ?_
    iterate 4 refine Yields.bind fun _ => ?_
    exact Yields.pure hc

lemma yields_partition : readPartition.Yields (Paints Unbroken) := by
  unfold readPartition
  iterate 2 refine Yields.bind fun _ => ?_
  refine yields_colorAnd.bindOf fun before hbefore => ?_
  iterate 2 refine Yields.bind fun _ => ?_
  refine yields_colorAnd.bindOf fun behind hbehind => ?_
  iterate 2 refine Yields.bind fun _ => ?_
  exact Yields.pure (hbefore.or hbehind)

/-- The lines of notes and actions. -/
lemma yields_texts : ∀ p ∈ [readNote, readNoteStart, readBackward, readAction, readActionStart],
    p.Yields (Paints Unbroken) := by
  simp only [List.forall_mem_cons]
  refine ⟨?_, ?_, ?_, ?_, ?_, List.forall_mem_nil _⟩
  · unfold readNote
    refine yields_noteHead.bindOf fun head hc => ?_
    obtain ⟨floating, isLeft, c⟩ := head
    dsimp only
    iterate 3 refine Yields.bind fun _ => ?_
    exact Yields.pure hc
  · unfold readNoteStart
    refine yields_noteHead.bindOf fun head hc => ?_
    obtain ⟨floating, isLeft, c⟩ := head
    exact Yields.bind fun _ => Yields.pure hc
  · unfold readBackward
    iterate 4 refine Yields.bind fun _ => ?_
    exact Yields.pure fits_none
  · exact yields_actionColor.bindOf fun c hc => Yields.bind fun _ => Yields.pure hc
  · exact yields_actionColor.bindOf fun c hc => Yields.bind fun _ => Yields.bind fun _ =>
      Yields.pure hc

/-- The color of a connector is the first one among its words. -/
lemma fits_arrowOf (style label : Option String) : Fits Unbroken (arrowOf style label).color := by
  cases style with
  | none => exact fits_none
  | some s =>
    refine Color.fits_of_unbroken fun c hc => ?_
    obtain ⟨⟨before, c', rest⟩, hfound, rfl⟩ := Option.map_eq_some_iff.1 hc
    exact Token.yields_plainColor.of_search hfound

lemma yields_arrow : readArrow.Yields (Paints Unbroken) := by
  unfold readArrow
  iterate 4 refine Yields.bind fun _ => ?_
  exact Yields.pure (fits_arrowOf _ _)

/-- The forms without colors. -/
lemma yields_uncolored : ∀ p ∈ [readTitle, readElseIf, readOtherwise, readEndWhile, readRepeatWhile,
    readEndFork, readEndSplit, readClosePartition, readCase], p.Yields (Paints Unbroken) := by
  simp only [List.forall_mem_cons]
  unfold readTitle readElseIf readOtherwise readEndWhile readRepeatWhile readEndFork readEndSplit
    readClosePartition readCase
  refine ⟨?_, ?_, ?_, ?_, ?_, ?_, ?_, ?_, ?_, List.forall_mem_nil _⟩
  all_goals repeat first | refine Yields.bind fun _ => ?_ | split
  all_goals exact Yields.pure trivial

lemma yields_step (word : String) {s : Step} (hs : s.color? = none) :
    (readStep word s).Yields (Paints Unbroken) :=
  Yields.bind fun _ => Yields.pure (show Fits Unbroken s.color? from hs ▸ fits_none)

lemma yields_close (words : List String) {l : Line} (hl : l.Paints Unbroken) :
    (readClose words l).Yields (Paints Unbroken) :=
  Yields.bind fun _ => Yields.pure hl

lemma yields_fork (words : List String) {l : Line} (hl : l.Paints Unbroken) :
    (readFork words l).Yields (Paints Unbroken) :=
  Yields.bind fun _ => Yields.pure hl

/-- The colors of a line. -/
theorem paints_of_read? {s : List Char} {l : Line} (h : read? s = some l) : l.Paints Unbroken := by
  have hblocks := yields_blocks
  have htexts := yields_texts
  have huncolored := yields_uncolored
  simp only [List.forall_mem_cons] at hblocks htexts huncolored
  obtain ⟨hchoice, hchoiceIs, hwhile, hrepeat, hswitch, -⟩ := hblocks
  obtain ⟨hnote, hnoteStart, hbackward, haction, hactionStart, -⟩ := htexts
  obtain ⟨htitle, helseIf, hotherwise, hendWhile, hrepeatWhile, hendFork, hendSplit,
    hclosePartition, hcase, -⟩ := huncolored
  have hforms : ∀ p ∈ forms, p.Yields (Paints Unbroken) := by
    simp only [forms, List.forall_mem_cons]
    exact ⟨htitle, yields_lane, yields_step _ rfl, yields_step _ rfl, yields_step _ rfl,
      yields_step _ rfl, yields_step _ rfl, yields_close _ trivial, helseIf, hotherwise, hendWhile,
      hrepeatWhile, yields_close _ trivial, hendFork, hendSplit, hclosePartition, yields_step _ rfl,
      hchoice, hchoiceIs, hwhile, hrepeat, hswitch, hcase, yields_fork _ trivial,
      yields_fork _ trivial, yields_fork _ trivial, yields_fork _ trivial, yields_partition, hnote,
      hnoteStart, hbackward, haction, hactionStart, yields_arrow, List.forall_mem_nil _⟩
  exact (Yields.anyOf hforms).of_whole h

end Line

/-! ### Blocks -/

/-- The colors of some instructions, and of those inside, are as described. -/
def AllPaint (S : String → Prop) (is : List Instruction) : Prop :=
  ∀ i ∈ Instruction.walkAll is, i.Paints S

lemma allPaint_nil : AllPaint S [] :=
  List.forall_mem_nil _

lemma AllPaint.append {is js : List Instruction} (h : AllPaint S is) (h' : AllPaint S js) :
    AllPaint S (is ++ js) := by
  unfold AllPaint
  rw [Instruction.walkAll_append]
  exact List.forall_mem_append.2 ⟨h, h'⟩

lemma allPaint_step {s : Step} (hs : Fits S s.color?) (n : Node) : AllPaint S [.step n s] := by
  unfold AllPaint
  rw [Instruction.walkAll_singleton]
  refine List.forall_mem_singleton.2 ?_
  rw [Instruction.Paints, Instruction.color?_step]
  exact hs

namespace OpenBlock

/-- The color of an open block. -/
def color? : OpenBlock → Option String
  | firstBranch c | otherBranch c _ _ _ _ | lastBranch c _ _ => c.color
  | loop l => l.color
  | switch _ color _ _ | partition _ color => color
  | fork _ _ => none

/-- The colors of an open block and of its closed parts are as described. -/
structure Paints (S : String → Prop) (b : OpenBlock) : Prop where
  own : Fits S b.color?
  parts : ∀ is ∈ b.parts, AllPaint S is

/-- A test of a block that keeps the color. -/
def KeepsColor (change : OpenBlock → Option OpenBlock) : Prop :=
  ∀ b b', change b = some b' → b'.color? = b.color?

lemma keepsColor_endChoice : KeepsColor endChoice := by
  intro b b' h
  cases b with
  | firstBranch | otherBranch | lastBranch => rw [← Option.some.inj h]
  | _ => cases h

lemma keepsColor_endWhile (label : Option String) : KeepsColor (endWhile label) := by
  intro b b' h
  cases b with
  | loop l =>
    obtain ⟨test, _, _, _, _⟩ := l
    cases test with
    | before => rw [← Option.some.inj h]; rfl
    | after => cases h
  | _ => cases h

lemma keepsColor_repeatWhile (condition : String) (again out : Option String) :
    KeepsColor (repeatWhile condition again out) := by
  intro b b' h
  cases b with
  | loop l =>
    obtain ⟨test, _, _, _, _⟩ := l
    cases test with
    | before => cases h
    | after => rw [← Option.some.inj h]; rfl
  | _ => cases h

lemma keepsColor_endSwitch : KeepsColor endSwitch := by
  intro b b' h
  cases b with
  | switch => rw [← Option.some.inj h]
  | _ => cases h

lemma keepsColor_endFork (isSplit : Bool) : KeepsColor (endFork isSplit) := by
  intro b b' h
  cases b with
  | fork isSplit' branches =>
    unfold endFork at h
    dsimp only at h
    split_ifs at h
    rw [← Option.some.inj h]
  | _ => cases h

lemma keepsColor_closePartition : KeepsColor closePartition := by
  intro b b' h
  cases b with
  | partition => rw [← Option.some.inj h]
  | _ => cases h

lemma keepsColor_elseIf (elseLabel : Option String) (condition : String) (label : Option String)
    (body : List Instruction) : KeepsColor (elseIf elseLabel condition label body) := by
  intro b b' h
  cases b with
  | firstBranch | otherBranch => rw [← Option.some.inj h]; rfl
  | _ => cases h

lemma keepsColor_otherwise (elseLabel : Option String) (body : List Instruction) :
    KeepsColor (otherwise elseLabel body) := by
  intro b b' h
  cases b with
  | firstBranch | otherBranch => rw [← Option.some.inj h]; rfl
  | _ => cases h

lemma keepsColor_nextCase (label : String) (body : List Instruction) :
    KeepsColor (nextCase label body) := by
  intro b b' h
  cases b with
  | switch => rw [← Option.some.inj h]; rfl
  | _ => cases h

lemma keepsColor_forkAgain (isSplit : Bool) (body : List Instruction) :
    KeepsColor (forkAgain isSplit body) := by
  intro b b' h
  cases b with
  | fork isSplit' branches =>
    unfold forkAgain at h
    dsimp only at h
    split_ifs at h
    rw [← Option.some.inj h]
    rfl
  | _ => cases h

lemma color?_close (b : OpenBlock) (n : Node) (body : List Instruction) :
    (b.close n body).color? = b.color? := by
  cases b <;> rfl

/-- A closed block has the colors of its parts and of the open list. -/
lemma Paints.close {b : OpenBlock} (h : b.Paints S) (n : Node) {body : List Instruction}
    (hbody : AllPaint S body) : AllPaint S [b.close n body] := by
  obtain ⟨new, hbodies, hnew⟩ := b.exists_bodies_close n body
  have hinside : ∀ is ∈ b.parts ++ new, AllPaint S is := by
    refine List.forall_mem_append.2 ⟨h.parts, ?_⟩
    rcases hnew with rfl | rfl | rfl
    · exact List.forall_mem_nil _
    · exact List.forall_mem_singleton.2 hbody
    · exact List.forall_mem_cons.2 ⟨hbody, List.forall_mem_singleton.2 allPaint_nil⟩
  unfold AllPaint
  rw [Instruction.walkAll_singleton, hbodies]
  refine List.forall_mem_cons.2 ⟨?_, fun i hi => ?_⟩
  · rw [Instruction.Paints, color?_close]
    exact h.own
  · obtain ⟨is, his, hi⟩ := List.mem_flatMap.1 hi
    exact hinside is his i hi

end OpenBlock

/-! ### Readers -/

/-- The colors so far are as described. -/
structure Reader.Paints (S : String → Prop) (r : Reader) : Prop where
  body : AllPaint S r.body
  before : ∀ f ∈ r.frames, AllPaint S f.before
  blocks : ∀ f ∈ r.frames, f.block.Paints S
  pending : ∀ x, r.pending = some x → Fits S x.2.color
  lanes : Keyed.All (fun l => Fits S l.color) r.lanes
  text : ∀ x, r.text = some x → x.1.Paints S

namespace Reader
namespace Paints

variable {r : Reader}

lemma pendingSteps (h : r.Paints S) : AllPaint S r.pendingSteps := by
  unfold Reader.pendingSteps
  cases hpending : r.pending with
  | none => exact allPaint_nil
  | some x => exact allPaint_step (s := .arrow x.2) (h.pending x hpending) _

/-- No connector waits any more. -/
lemma absent {α : Type} {Q : α → Prop} : ∀ x : α, none = some x → Q x :=
  fun x hx => absurd hx.symm (Option.some_ne_none x)

lemma addStep (h : r.Paints S) {s : Step} (hs : Fits S s.color?) : (r.addStep s).Paints S := by
  have hstep := allPaint_step hs r.nextNode
  unfold Reader.addStep
  split
  · exact { h with body := h.body.append hstep }
  · exact { h with body := (h.body.append h.pendingSteps).append hstep, pending := absent }

lemma openBlock (h : r.Paints S) {b : OpenBlock} (hb : b.Paints S) : (r.openBlock b).Paints S where
  body := allPaint_nil
  before := List.forall_mem_cons.2 ⟨h.body.append h.pendingSteps, h.before⟩
  blocks := List.forall_mem_cons.2 ⟨hb, h.blocks⟩
  pending := absent
  lanes := h.lanes
  text := h.text

lemma closeBlock (h : r.Paints S) {change : OpenBlock → Option OpenBlock}
    (hends : OpenBlock.Ends change) (hcolor : OpenBlock.KeepsColor change) :
    (r.closeBlock change).Paints S := by
  unfold Reader.closeBlock
  split
  · exact h
  · next f rest hframes =>
    obtain ⟨hbefore, hbefores⟩ := List.forall_mem_cons.1 (hframes ▸ h.before)
    obtain ⟨hblock, hblocks⟩ := List.forall_mem_cons.1 (hframes ▸ h.blocks)
    split
    · exact h
    · next b hb =>
      have hb' : b.Paints S :=
        ⟨hcolor _ _ hb ▸ hblock.own, hends _ _ hb ▸ hblock.parts⟩
      exact { h with
        body := hbefore.append (hb'.close _ h.body), before := hbefores, blocks := hblocks }

lemma nextPart (h : r.Paints S) {change : List Instruction → OpenBlock → Option OpenBlock}
    (hgoes : OpenBlock.GoesOn change) (hcolor : ∀ body, OpenBlock.KeepsColor (change body)) :
    (r.nextPart change).Paints S := by
  unfold Reader.nextPart
  split
  · exact h
  · next f rest hframes =>
    obtain ⟨hbefore, hbefores⟩ := List.forall_mem_cons.1 (hframes ▸ h.before)
    obtain ⟨hblock, hblocks⟩ := List.forall_mem_cons.1 (hframes ▸ h.blocks)
    split
    · exact h
    · next b hb =>
      obtain ⟨new, hparts, hnew⟩ := hgoes _ _ _ hb
      have hb' : b.Paints S := by
        refine ⟨hcolor _ _ _ hb ▸ hblock.own, ?_⟩
        rw [hparts]
        refine List.forall_mem_append.2 ⟨hblock.parts, ?_⟩
        rcases hnew with rfl | rfl
        · exact List.forall_mem_nil _
        · exact List.forall_mem_singleton.2 h.body
      exact { h with
        body := allPaint_nil, before := List.forall_mem_cons.2 ⟨hbefore, hbefores⟩
        blocks := List.forall_mem_cons.2 ⟨hb', hblocks⟩ }

lemma openLane (h : r.Paints S) {l : Lane} (hl : Fits S l.color) : (r.openLane l).Paints S := by
  refine { h with lanes := ?_ }
  unfold Reader.openLane
  dsimp only
  split
  · exact h.lanes
  · exact h.lanes.insert hl

lemma withText (h : r.Paints S) {t : OpenText} (ht : t.Paints S) (lines : List (List Char)) :
    ({ r with text := some (t, lines) } : Reader).Paints S :=
  { h with text := fun _ hx => Option.some.inj hx ▸ ht }

/-- A block that a line opens has no parts yet. -/
lemma opens (h : r.Paints S) {b : OpenBlock} (hcolor : Fits S b.color?) (hparts : b.parts = []) :
    (r.openBlock b).Paints S :=
  h.openBlock ⟨hcolor, hparts ▸ List.forall_mem_nil _⟩

open OpenBlock in
/-- A line with a meaning adds its colors. -/
lemma apply (h : r.Paints S) {l : Line} (hl : l.Paints S) : (r.apply l).Paints S := by
  cases l with
  | title => exact { h with }
  | lane l => exact h.openLane hl
  | step s => exact h.addStep hl
  | text t => exact h.withText hl []
  | choice c => exact h.opens (b := .firstBranch c) hl rfl
  | whileLoop l => exact h.opens (b := .loop l) hl rfl
  | repeatLoop l => exact h.opens (b := .loop l) hl rfl
  | switch condition color => exact h.opens (b := .switch condition color [] none) hl rfl
  | fork isSplit => exact h.opens (b := .fork isSplit []) fits_none rfl
  | partition name color => exact h.opens (b := .partition name color) hl rfl
  | elseIf => exact h.nextPart (goesOn_elseIf _ _ _) fun _ => keepsColor_elseIf _ _ _ _
  | otherwise => exact h.nextPart (goesOn_otherwise _) fun _ => keepsColor_otherwise _ _
  | case => exact h.nextPart (goesOn_nextCase _) fun _ => keepsColor_nextCase _ _
  | forkAgain => exact h.nextPart (goesOn_forkAgain _) fun _ => keepsColor_forkAgain _ _
  | endChoice => exact h.closeBlock ends_endChoice keepsColor_endChoice
  | endWhile => exact h.closeBlock (ends_endWhile _) (keepsColor_endWhile _)
  | repeatWhile => exact h.closeBlock (ends_repeatWhile _ _ _) (keepsColor_repeatWhile _ _ _)
  | endSwitch => exact h.closeBlock ends_endSwitch keepsColor_endSwitch
  | endFork => exact h.closeBlock (ends_endFork _) (keepsColor_endFork _)
  | closePartition => exact h.closeBlock ends_closePartition keepsColor_closePartition
  | arrow a => exact { h with pending := fun _ hx => Option.some.inj hx ▸ hl }

/-- The step that a text becomes has its color. -/
lemma color?_endText {lines : List (List Char)} {line : SourceLine} {t : OpenText} (ht : t.Paints S)
    {s : Step} (hs : endText lines line t = some s) : Fits S s.color? := by
  cases t with
  | note isLeft color floating =>
    unfold endText at hs
    dsimp only at hs
    split_ifs at hs
    exact Option.some.inj hs ▸ ht
  | action color first =>
    unfold endText at hs
    dsimp only at hs
    split at hs
    · exact Option.some.inj hs ▸ ht
    · cases hs

/-- A line keeps what is known of the colors so far. -/
theorem step (h : r.Paints Unbroken) (line : SourceLine) : (r.step line).Paints Unbroken := by
  unfold Reader.step
  split
  · next t lines htext =>
    have ht : t.Paints Unbroken := h.text _ htext
    split
    · next s hs =>
      have hclosed : ({ r with text := none } : Reader).Paints Unbroken := { h with text := absent }
      exact hclosed.addStep (color?_endText ht hs)
    · exact h.withText ht _
  · unfold Reader.readLine
    split
    · exact h
    · split
      · next l hl => exact h.apply (Line.paints_of_read? hl)
      · exact h

/-- The blocks that are still open when the text ends. -/
lemma unwind {frames : List Frame} (hbefore : ∀ f ∈ frames, AllPaint S f.before)
    (hblocks : ∀ f ∈ frames, f.block.Paints S) {body : List Instruction} (hbody : AllPaint S body) :
    AllPaint S (Reader.unwind frames body) := by
  induction frames generalizing body with
  | nil => exact hbody
  | cons f rest ih =>
    obtain ⟨hf, hbefores⟩ := List.forall_mem_cons.1 hbefore
    obtain ⟨hblock, hblocks⟩ := List.forall_mem_cons.1 hblocks
    exact ih hbefores hblocks (hf.append (hblock.close _ hbody))

end Paints
end Reader

/-- The colors of an activity diagram that is read hold no semicolons. -/
theorem Diagram.paints_read (text : String) : (read text).Paints Unbroken := by
  have hstart : ({} : Reader).Paints Unbroken :=
    ⟨allPaint_nil, List.forall_mem_nil _, List.forall_mem_nil _, Reader.Paints.absent,
      Keyed.all_empty, Reader.Paints.absent⟩
  have hr := List.foldlRecOn (motive := Reader.Paints Unbroken) (Source.lines text) Reader.step
    hstart fun r hr line _ => hr.step line
  exact ⟨Reader.Paints.unwind hr.before hr.blocks hr.body, hr.lanes⟩

end Activity
end UmlDraw
