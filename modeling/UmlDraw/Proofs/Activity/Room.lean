/-
# The room of an instruction covers what is drawn in it

The shapes of a drawing are those of the title, of the lanes and of each instruction that has a
place.  The room that is measured for an instruction is wide enough for its own shapes, with one
exception: the box at the start of a loop is not measured, and where it is wider than the loop it
sticks out on both sides.

The main statements are

* `Instruction.within_of_mem_strips`: the shapes of an instruction lie within its room, if the box
  at its start fits;
* `Instruction.width_iff_startFits`: they are no wider than it, exactly if that box fits;
* `Instruction.spans_draw` and the three lemmas beside it: the shapes of an instruction, of a list
  of instructions and of branches, by induction on the instruction;
* `Diagram.covered_read`: the rooms in the drawing of a text.
-/
import UmlDraw.Proofs.Activity.Column
import UmlDraw.Proofs.Drawing.Laid

namespace UmlDraw
namespace Activity

open Sketch

/-- The strips of the shapes that draw a step. -/
def Step.strips (cx : Rat) : Step → List Strip
  | action label _ => [.around label cx (Size.box label).width]
  | start | kill => [.around "" cx Size.circle]
  | stop | finish => [.around "" cx Size.circle, .around "" cx 16]
  | leave | arrow _ => []
  | note n => [.around n.text (if n.isLeft then cx - 160 else cx + 160) Size.noteWidth]

namespace Instruction

/-- The strips of the further decisions, each in the middle of its column. -/
def headStrips (owner : Nat) (left : Rat) (others : List (Branch Instruction)) : List Strip :=
  List.zipWith (fun b c => .around b.condition c.center Size.diamond) others
    (Column.sideBySide owner left (Size.columns Size.diamond (branchSizes others)))

/-- The strips of the shapes that draw an instruction around a center line, those inside apart. -/
def strips (cx : Rat) : Instruction → List Strip
  | step _ s => s.strips cx
  | i@(choice n c first others last) =>
    if onlyLeaves first others last then [.around c.condition cx Size.diamond]
    else
      let column : Column := ⟨n.id, cx - Size.spread i.columnWidths / 2,
        max (sizeAll first).width Size.diamond⟩
      .around c.condition (if others.isEmpty then cx else column.center) Size.diamond ::
        .around "" cx (Size.diamond / 2 : Nat) ::
          headStrips n.id (column.right + Size.columnGap) others
  | loop _ l _ =>
    match l.test with
    | .before | .after none => [.around l.condition cx Size.diamond]
    | .after (some label) =>
      [.around label cx (Size.box label).width, .around l.condition cx Size.diamond]
  | switch _ condition _ _ =>
    [.around condition cx Size.diamond, .around "" cx (Size.diamond / 2 : Nat)]
  | fork _ _ branches =>
    let width := Fraction.larger Size.barWidth
      (Size.spread (Size.columns Size.boxWidth (branchSizes branches)) * 7 / 10)
    [.around "" cx width, .around "" cx width]
  | i@(partition _ name _ _) => [.around name cx (size i).width]

end Instruction

/-- The strips of the shapes that draw an instruction in its place. -/
def Seat.strips (s : Seat) : List Strip :=
  s.instruction.strips s.center

/-! ### Shapes in the room of their instruction -/

namespace Column

/-- A decision in the middle of a column stays in the column. -/
lemma within_center (label : String) {c : Column} (h : Size.diamond ≤ c.width) :
    (Strip.around label c.center Size.diamond).Within c.left c.right := by
  have hwidth : (Size.diamond : Rat) ≤ c.width := Nat.cast_le.2 h
  constructor <;> simp only [Strip.around, Strip.right, center, right] <;> linarith


lemma least_le_width {c : Column} {owner least : Nat} {left : Rat} {sizes : List Size}
    (h : c ∈ sideBySide owner left (Size.columns least sizes)) : least ≤ c.width := by
  induction sizes generalizing left with
  | nil => cases h
  | cons s rest ih =>
    rcases List.mem_cons.1 h with rfl | h
    · exact le_max_right _ _
    · exact ih h

end Column

namespace Instruction

variable {cx : Rat}

lemma within_of_mem_strips_step {n : Node} {s : Step} (hroom : (step n s).isAside = false)
    {t : Strip} (ht : t ∈ s.strips cx) :
    t.Within (cx - (Size.ofStep s).width / 2) (cx + (Size.ofStep s).width / 2) := by
  cases s with
  | action | start | kill =>
    rw [Step.strips, List.mem_singleton] at ht
    rw [ht]
    exact Strip.within_around _ le_rfl
  | stop | finish =>
    rw [Step.strips, List.mem_cons, List.mem_singleton] at ht
    rcases ht with rfl | rfl
    · exact Strip.within_around _ le_rfl
    · exact Strip.within_around _ (by norm_num [Size.ofStep, Size.circle])
  | leave | arrow | note => cases hroom

/-- Each further decision stands over a column. -/
lemma exists_column_of_mem_headStrips {owner : Nat} {left : Rat}
    {others : List (Branch Instruction)} {t : Strip} (ht : t ∈ headStrips owner left others) :
    ∃ c ∈ Column.sideBySide owner left (Size.columns Size.diamond (branchSizes others)),
      ∃ label, t = .around label c.center Size.diamond := by
  rw [headStrips, ← List.map_uncurry_zip_eq_zipWith, List.mem_map] at ht
  obtain ⟨⟨b, c⟩, hmem, rfl⟩ := ht
  exact ⟨c, (List.of_mem_zip hmem).2, b.condition, rfl⟩

lemma within_of_mem_strips_choice {n : Node} {c : Choice} {first last : List Instruction}
    {others : List (Branch Instruction)} {t : Strip}
    (ht : t ∈ (choice n c first others last).strips cx) :
    t.Within (cx - (size (choice n c first others last)).width / 2)
      (cx + (size (choice n c first others last)).width / 2) := by
  rw [strips] at ht
  split at ht
  · next honly =>
    rw [List.mem_singleton] at ht
    rw [ht, size, if_pos honly]
    exact Strip.within_around _ le_rfl
  · next honly =>
    have hdiamond : (Size.diamond : Rat) ≤ (size (choice n c first others last)).width :=
      Nat.cast_le.2 (diamond_le_width_choice honly)
    have hcolumn : ∀ column ∈ (choice n c first others last).columns cx,
        Size.diamond ≤ column.width → ∀ label : String,
          (Strip.around label column.center Size.diamond).Within
            (cx - (size (choice n c first others last)).width / 2)
            (cx + (size (choice n c first others last)).width / 2) := by
      intro column hmem hwidth label
      obtain ⟨hleft, hright⟩ := bounds_of_mem_columns hmem
      exact (Column.within_center label hwidth).mono hleft hright
    rw [columns_choice honly] at hcolumn
    rw [List.mem_cons, List.mem_cons] at ht
    rcases ht with rfl | rfl | ht
    · split
      · exact Strip.within_around _ hdiamond
      · exact hcolumn _ List.mem_cons_self (le_max_right _ _) _
    · refine Strip.within_around _ (le_trans ?_ hdiamond)
      norm_num [Size.diamond]
    · obtain ⟨column, hmem, label, rfl⟩ := exists_column_of_mem_headStrips ht
      exact hcolumn _ (List.mem_cons_of_mem _ (List.mem_append_left _ hmem))
        (Column.least_le_width hmem) _

/-- The shapes of an instruction of the flow lie within its room, if the box at its start fits. -/
theorem within_of_mem_strips {i : Instruction} (hroom : i.isAside = false) (hfits : i.StartFits)
    {t : Strip} (ht : t ∈ i.strips cx) :
    t.Within (cx - (size i).width / 2) (cx + (size i).width / 2) := by
  cases i with
  | step n s => exact within_of_mem_strips_step hroom ht
  | choice n c first others last => exact within_of_mem_strips_choice ht
  | loop n l body =>
    have hdiamond : (Size.diamond : Rat) ≤ (size (loop n l body)).width :=
      Nat.cast_le.2 (sizeAll_le_width_loop n l body).2
    rw [strips] at ht
    split at ht
    · rw [List.mem_singleton] at ht
      rw [ht]
      exact Strip.within_around _ hdiamond
    · rw [List.mem_singleton] at ht
      rw [ht]
      exact Strip.within_around _ hdiamond
    · next label htest =>
      rw [List.mem_cons, List.mem_singleton] at ht
      rcases ht with rfl | rfl
      · exact Strip.within_around _ (Nat.cast_le.2 (hfits label htest))
      · exact Strip.within_around _ hdiamond
  | switch n condition color cases =>
    have hdiamond : (Size.diamond : Rat) ≤ (size (switch n condition color cases)).width :=
      Nat.cast_le.2 (le_max_right _ _)
    rw [strips, List.mem_cons, List.mem_singleton] at ht
    rcases ht with rfl | rfl
    · exact Strip.within_around _ hdiamond
    · refine Strip.within_around _ (le_trans ?_ hdiamond)
      norm_num [Size.diamond]
  | fork n isSplit branches =>
    have hbar := half_bar_le_width n isSplit branches
    rw [strips, List.mem_cons, List.mem_singleton, or_self] at ht
    rw [ht]
    exact Strip.within_around _ (by linarith)
  | partition n name color body =>
    rw [strips, List.mem_singleton] at ht
    rw [ht]
    exact Strip.within_around _ le_rfl

/-- The shapes of an instruction are no wider than it, exactly if the box at its start fits. -/
theorem width_iff_startFits (cx : Rat) (i : Instruction) :
    (∀ t ∈ i.strips cx, t.width ≤ (size i).width) ↔ i.StartFits := by
  constructor
  · intro h
    cases i with
    | loop n l body =>
      intro label htest
      refine Nat.cast_le.1 (h (.around label cx (Size.box label).width) ?_)
      simp [strips, htest]
    | _ => trivial
  · intro hfits t ht
    cases haside : i.isAside with
    | false => exact (within_of_mem_strips haside hfits ht).width_le
    | true =>
      -- of what takes no room, only notes are drawn
      cases i with
      | step n s =>
        cases s with
        | note m =>
          rw [strips, Step.strips, List.mem_singleton] at ht
          rw [ht]
          exact le_rfl
        | leave | arrow => cases ht
        | _ => cases haside
      | _ => cases haside

end Instruction

/-! ### The strips of a drawing -/

variable {parent : String} {lanes : Keyed Rat}

lemma spans_drawAround (value : String) (style : Style) (cx y : Rat) (size : Size) :
    (drawAround value style cx y size).Spans parent [.around value cx size.width] :=
  spans_shape _ _ _ _ (Number.value?_ratio _) (Number.value?_int _)

lemma spans_drawDiamond (label : String) (color : Option String) (cx y : Rat) :
    (drawDiamond label color cx y).Spans parent [.around label cx Size.diamond] :=
  spans_drawAround _ _ _ _ _

lemma spans_drawMerge (cx y : Rat) (height : Nat) :
    (drawMerge cx y height).Spans parent [.around "" cx (Size.diamond / 2 : Nat)] :=
  spans_drawAround _ _ _ _ _

lemma spans_drawFlow (source target label color : Option String) (dashed : Bool) :
    (drawFlow source target label color dashed).Spans parent [] := by
  unfold drawFlow
  split
  · exact (spans_connect _ _ _ _).returns
  · exact spans_pure _

lemma spans_drawPlain (source target label : Option String) :
    (drawPlain source target label).Spans parent [] :=
  spans_drawFlow _ _ _ _ _

lemma spans_drawBack (source target : String) (label : Option String) :
    (drawBack source target label).Spans parent [] :=
  (spans_connect _ _ _ _).returns

lemma spans_drawNote (cx y : Rat) (n : Note) :
    (drawNote cx y n).Spans parent (Step.strips cx (.note n)) :=
  (spans_drawAround _ _ _ _ _).returns

/-- A note is drawn by its list. -/
lemma spans_drawStep (cx y : Rat) {s : Step} (hs : ∀ n, s ≠ .note n) :
    (drawStep cx y s).Spans parent (s.strips cx) := by
  unfold drawStep
  cases s with
  | action | start | kill => exact (spans_drawAround _ _ _ _ _).returns
  | stop | finish =>
    exact (spans_drawAround _ _ _ _ _).cons fun _ =>
      (spans_drawAround _ _ _ _ _).returns
  | leave | arrow => exact spans_pure _
  | note n => exact absurd rfl (hs n)

lemma spans_join (c : Chain) (ends : Ends) (exitLabel : Option String) :
    (c.join ends exitLabel).Spans parent [] := by
  have hrest : Spans (
      if ends.entry.isSome || ends.exit.isSome then
        pure { c with entry := c.entry.or ends.entry, pending := none, exit := ends.exit,
                      exitLabel := exitLabel }
      else pure { c with entry := c.entry.or ends.entry, pending := none } :
        Sketch Chain) parent [] := by
    split <;> exact spans_pure _
  unfold Chain.join
  dsimp only
  split
  · split
    · exact (spans_drawFlow _ _ _ _ _).skip fun _ => hrest
    · exact (spans_drawPlain _ _ _).skip fun _ => hrest
  · exact hrest

/-- The strips of the shapes that draw instructions in their places. -/
def stripsOf (ss : List Seat) : List Strip :=
  ss.flatMap Seat.strips

@[simp]
lemma stripsOf_nil : stripsOf [] = [] := rfl

@[simp]
lemma stripsOf_cons (s : Seat) (ss : List Seat) : stripsOf (s :: ss) = s.strips ++ stripsOf ss :=
  List.flatMap_cons

@[simp]
lemma stripsOf_append (ss ss' : List Seat) : stripsOf (ss ++ ss') = stripsOf ss ++ stripsOf ss' :=
  List.flatMap_append

namespace Instruction

lemma spans_joinBranch {β : Type} {R : β → Prop} (ends : Ends) (source target : String)
    (label : Option String) {s : Sketch β} {ts : List Strip} (hs : SpansAnd s parent ts R) :
    SpansAnd (do
      drawPlain source (ends.entry.or target) label
      if ends.entry.isSome then drawPlain ends.exit target none
      s : Sketch β) parent ts R := by
  refine (spans_drawPlain _ _ _).skip fun _ => ?_
  dsimp only
  split
  · exact (spans_drawPlain _ _ _).skip fun _ => hs
  · exact hs

/-- An instruction without a place draws nothing. -/
lemma stripsOf_plan_of_isSilent {i : Instruction} (h : i.isSilent = true) (around : List Column)
    (cx : Rat) : stripsOf (plan lanes around cx i) = [] := by
  cases i with
  | step n s =>
    cases s with
    | leave | arrow => rfl
    | _ => cases h
  | _ => cases h

lemma stripsOf_planAll_cons (around : List Column) (cx : Rat) (i : Instruction)
    (rest : List Instruction) : stripsOf (planAll lanes around cx (i :: rest)) =
      stripsOf (plan lanes (keptColumns lanes i.node around) (centerOf lanes i.node cx) i) ++
        stripsOf (planAll lanes around cx rest) := by
  rw [planAll, stripsOf_append]
  refine congrArg (· ++ stripsOf (planAll lanes around cx rest)) ?_
  split
  · next hsilent => rw [stripsOf_plan_of_isSilent hsilent, stripsOf_nil]
  · rfl

/-- Where columns fill their instruction, their places are those around its center line. -/
lemma planBranches_of_le (around : List Column) (owner : Nat) (cx : Rat) (least : Nat)
    (hleast : least ≤ Size.boxWidth) (branches : List (Branch Instruction)) :
    planBranches lanes around owner Size.boxWidth
      (cx - (max (Size.spread (Size.columns Size.boxWidth (branchSizes branches))) least : Nat) / 2)
      branches =
    planBranches lanes around owner Size.boxWidth
      (cx - Size.spread (Size.columns Size.boxWidth (branchSizes branches)) / 2) branches := by
  cases branches with
  | nil => rw [planBranches, planBranches]
  | cons b rest =>
    have hwidth : least ≤
        Size.spread (Size.columns Size.boxWidth (branchSizes (b :: rest))) := by
      refine hleast.trans ((le_max_right (sizeAll b.body).width _).trans (Size.le_spread ?_))
      rw [branchSizes]
      exact List.mem_cons_self
    rw [max_eq_left hwidth]

lemma headStrips_cons (owner : Nat) (left : Rat) (b : Branch Instruction)
    (rest : List (Branch Instruction)) :
    headStrips owner left (b :: rest) =
      .around b.condition (left + (max (sizeAll b.body).width Size.diamond : Nat) / 2)
        Size.diamond ::
      headStrips owner (left + (max (sizeAll b.body).width Size.diamond : Nat) + Size.columnGap)
        rest := by
  rw [headStrips, branchSizes]
  rfl

/-- A branch may be drawn before the decisions over the branches behind it. -/
lemma perm_heads (d : Strip) (first heads rest : List Strip) :
    (d :: (first ++ (heads ++ rest))).Perm ((d :: heads) ++ (first ++ rest)) :=
  .cons d (List.perm_append_comm_assoc _ _ _)

-- The four lemmas go through an instruction as the four functions do.  The strips are first written
-- in the order in which the shapes are drawn: a decision over a branch comes before the branch, and
-- the decision of a loop may come behind what is in it.
mutual

theorem spans_draw {around : List Column} {cx y : Rat} : (i : Instruction) →
    (∀ n note, i ≠ step n (.note note)) →
    (draw lanes cx y i).Spans parent (stripsOf (plan lanes around cx i))
  | step n s, hnote => by
    have hstrips : stripsOf [⟨step n s, cx, around⟩] = s.strips cx := List.append_nil _
    rw [plan, hstrips]
    unfold draw
    exact spans_drawStep cx y fun note heq => hnote n note (congrArg (step n) heq)
  | choice n c first others last, _ => by
    unfold draw
    rw [plan, stripsOf_cons, Seat.strips, strips]
    split
    · exact (spans_drawDiamond _ _ _ _).returns
    · next honly =>
      have hwidth : (size (choice n c first others last)).width =
          Size.spread (choice n c first others last).columnWidths := by
        rw [size, columnWidths, if_neg honly, if_neg honly]
        rfl
      dsimp only
      rw [hwidth, stripsOf_append, stripsOf_append]
      refine SpansAnd.perm ?_ ((perm_heads _ _ _ _).cons _)
      refine (spans_drawDiamond _ _ _ _).cons fun diamond => ?_
      refine (spans_drawMerge _ _ _).cons fun merge => ?_
      refine (spans_drawAll first).bind fun ends => ?_
      refine spans_joinBranch ends diamond merge _ ?_
      rw [← List.append_assoc]
      refine (spans_drawOthers merge diamond others).bind ?_
      rintro ⟨lastDiamond, left⟩ rfl
      refine (spans_drawAll last).last fun ends => ?_
      exact spans_joinBranch ends lastDiamond merge _ (spans_pure _)
  | loop n l body, _ => by
    unfold draw
    rw [plan, stripsOf_cons, Seat.strips, strips, Column.center, sub_add_cancel]
    cases l.test with
    | before =>
      refine (spans_drawDiamond _ _ _ _).bind fun diamond => ?_
      refine (spans_drawAll body).last fun ends => ?_
      refine (spans_drawPlain _ _ _).skip fun _ => ?_
      dsimp only
      split
      · exact (spans_drawBack _ _ _).returns
      · exact spans_pure _
    | after startLabel =>
      have hbody : ∀ (start : Option String) (inner : Rat), (do
          let ends ← drawAll lanes cx { y := inner, lastY := inner } body
          drawPlain start ends.entry none
          let diamond ← drawDiamond l.condition l.color cx
            (inner + (sizeAll body).height + Size.rowGap)
          drawPlain ends.exit diamond none
          let top := (start.or ends.entry).getD diamond
          drawBack diamond top l.againLabel
          pure ⟨some top, some diamond⟩ : Sketch Ends).Spans parent
            ([.around l.condition cx Size.diamond] ++ stripsOf (planAll lanes
              (⟨n.id, cx - (sizeAll body).width / 2, (sizeAll body).width⟩ :: around) cx
                body)) := by
        intro start inner
        refine SpansAnd.perm ?_ List.perm_append_comm
        refine (spans_drawAll body).bind fun ends => ?_
        refine (spans_drawPlain _ _ _).skip fun _ => ?_
        refine (spans_drawDiamond _ _ _ _).last fun diamond => ?_
        refine (spans_drawPlain _ _ _).skip fun _ => ?_
        exact (spans_drawBack _ _ _).returns
      cases startLabel with
      | none => exact hbody none y
      | some label =>
        exact (spans_drawAround _ _ _ _ _).cons fun id => hbody (some id) _
  | switch n condition color cases, _ => by
    unfold draw
    rw [plan, stripsOf_cons, Seat.strips, strips, columnWidths,
      ← planBranches_of_le around n.id cx Size.diamond (by decide)]
    refine (spans_drawDiamond _ _ _ _).cons fun diamond => ?_
    refine (spans_drawMerge _ _ _).cons fun merge => ?_
    exact (spans_drawBranches diamond merge cases).returns
  | fork n isSplit branches, _ => by
    unfold draw
    rw [plan, stripsOf_cons, Seat.strips, strips, columnWidths,
      ← planBranches_of_le around n.id cx Size.barWidth (by decide)]
    refine Spans.cons
      (spans_shape _ _ _ _ (Number.value?_ratio _) (Number.value?_ratio _)) fun top => ?_
    refine Spans.cons
      (spans_shape _ _ _ _ (Number.value?_ratio _) (Number.value?_ratio _)) fun bottom => ?_
    exact (spans_drawBranches top bottom branches).returns
  | partition n name color body, _ => by
    unfold draw
    rw [plan, stripsOf_cons, Seat.strips, strips, Column.center, sub_add_cancel]
    refine (spans_drawAround _ _ _ _ _).bind fun frame => ?_
    refine (spans_drawAll body).last fun ends => ?_
    split <;> exact spans_pure _

theorem spans_drawAll {around : List Column} {cx : Rat} {c : Chain} :
    (is : List Instruction) →
    (drawAll lanes cx c is).Spans parent (stripsOf (planAll lanes around cx is))
  | [] => by
    unfold drawAll
    rw [planAll]
    exact spans_pure _
  | i :: rest => by
    unfold drawAll
    rw [stripsOf_planAll_cons]
    split
    · next heq => cases heq
    · next n a _ heq =>
      obtain ⟨rfl, rfl⟩ := List.cons.inj heq
      exact spans_drawAll rest
    · next n note _ heq =>
      obtain ⟨rfl, rfl⟩ := List.cons.inj heq
      exact (spans_drawNote _ _ _).bind fun _ => spans_drawAll rest
    · next hnote heq =>
      obtain ⟨rfl, rfl⟩ := List.cons.inj heq
      refine (spans_draw i fun n note hi => hnote n note hi).bind fun ends => ?_
      exact (spans_join _ _ _).skip fun c => spans_drawAll rest

theorem spans_drawOthers {around : List Column} {owner : Nat} {y left : Rat}
    (merge before : String) : (others : List (Branch Instruction)) →
    (drawOthers lanes y merge before left others).SpansAnd parent
      (headStrips owner left others ++
        stripsOf (planBranches lanes around owner Size.diamond left others))
      fun r => r.2 = Column.next left (Size.columns Size.diamond (branchSizes others))
  | [] => by
    unfold drawOthers
    rw [planBranches]
    exact SpansAnd.pure rfl
  | ⟨condition, label, body⟩ :: rest => by
    unfold drawOthers
    rw [planBranches, stripsOf_append, headStrips_cons]
    refine SpansAnd.perm ?_ (perm_heads _ _ _ _)
    refine (spans_drawDiamond _ _ _ _).cons fun diamond => ?_
    refine (spans_drawPlain _ _ _).skip fun _ => ?_
    refine (spans_drawAll body).bind fun ends => ?_
    exact spans_joinBranch ends diamond merge _ (spans_drawOthers merge diamond rest)

theorem spans_drawBranches {around : List Column} {owner : Nat} {y left : Rat}
    (source target : String) : (branches : List (Branch Instruction)) →
    (drawBranches lanes y source target left branches).Spans parent
      (stripsOf (planBranches lanes around owner Size.boxWidth left branches))
  | [] => by
    unfold drawBranches
    rw [planBranches]
    exact spans_pure _
  | ⟨condition, _, body⟩ :: rest => by
    unfold drawBranches
    rw [planBranches, stripsOf_append]
    refine (spans_drawAll body).bind fun ends => ?_
    refine (spans_drawPlain _ _ _).skip fun _ => ?_
    refine (spans_drawPlain _ _ _).skip fun _ => ?_
    exact spans_drawBranches source target rest

end

end Instruction

/-! ### The rooms of a diagram -/

namespace Diagram

variable {d : Diagram}

/-- The strip of the title. -/
def titleStrips (d : Diagram) : List Strip :=
  ((d.title.filter fun t => !t.isEmpty).map fun t =>
    ⟨t, margin, (max Size.boxWidth (t.length * 9) : Int)⟩).toList

/-- The strips of lanes in their places. -/
def laneStrips (places : Keyed (Nat × Nat)) (ls : List Lane) : List Strip :=
  ls.filterMap fun l => (places.get? l.name).map fun place =>
    ⟨(l.label.filter fun s => !s.isEmpty).getD l.name, place.1, place.2⟩

/-- The strips of what an activity drawing shows apart from instructions. -/
def headStrips (d : Diagram) : List Strip :=
  d.titleStrips ++ laneStrips (d.placeLanes margin d.laneNames Keyed.empty) d.lanes.values

lemma spans_drawLanes (places : Keyed (Nat × Nat)) (y height : Nat) (ls : List Lane) :
    (drawLanes places y height ls).Spans parent (laneStrips places ls) := by
  induction ls with
  | nil => exact spans_pure _
  | cons l rest ih =>
    unfold drawLanes
    rw [laneStrips, List.filterMap_cons]
    cases places.get? l.name with
    | none => exact ih
    | some place =>
      exact Spans.cons
        (spans_shape _ _ _ _ (Number.value?_int _) (Number.value?_int _)) fun _ => ih

lemma spans_sketch (d : Diagram) :
    d.sketch.Spans parent (d.headStrips ++ stripsOf d.seats) := by
  have hbody : ∀ top : Nat, (
      if d.lanes.keys.isEmpty then do
        let _ ← Instruction.drawAll Keyed.empty
          (margin + (Instruction.sizeAll d.instructions).width / 2) { y := top, lastY := top }
          d.instructions
      else do
        drawLanes (d.placeLanes margin d.laneNames Keyed.empty) (top - margin)
          ((Instruction.sizeAll d.instructions).height + laneHeader + margin * 2) d.lanes.values
        let _ ← Instruction.drawAll d.centers ((d.laneNames.head?.bind d.centers.get?).getD 0)
          { y := top + laneHeader, lastY := top + laneHeader } d.instructions :
      Sketch Unit).Spans parent (laneStrips (d.placeLanes margin d.laneNames Keyed.empty)
        d.lanes.values ++ stripsOf d.seats) := by
    intro top
    rw [seats]
    split
    · next hempty =>
      have hvalues : d.lanes.values = [] := by
        rw [List.isEmpty_iff, Keyed.keys, List.map_eq_nil_iff] at hempty
        rw [Keyed.values, hempty, List.map_nil]
      rw [hvalues]
      exact (Instruction.spans_drawAll _).returns
    · refine (spans_drawLanes _ _ _ _).bind fun _ => ?_
      exact (Instruction.spans_drawAll _).returns
  unfold sketch
  rw [headStrips, titleStrips, List.append_assoc]
  cases d.title.filter fun t => !t.isEmpty with
  | none => exact hbody _
  | some t =>
    exact Spans.cons
      (spans_shape _ _ _ _ (Number.value?_int _) (Number.value?_int _)) fun _ => hbody _

/-- The rooms that are measured for the instructions of a diagram, and what stands in them.  Notes
are beside the flow, and what has a lane of its own stands in no column. -/
structure Covered (d : Diagram) (parent : String) : Prop where
  /-- Every instruction that is drawn has one place, in the order of the tree. -/
  instructions :
    d.seats.map Seat.instruction = Instruction.shown (Instruction.walkAll d.instructions)
  /-- The shapes of the drawing are those of the title, of the lanes and of the instructions. -/
  drawn : (Strip.drawn (d.draw parent)).Perm ((d.headStrips ++ stripsOf d.seats).map some)
  /-- An instruction is as wide as each of its shapes, exactly if the box at its start fits. -/
  widths : ∀ s ∈ d.seats, (∀ t ∈ s.strips, t.width ≤ s.instruction.size.width) ↔
    s.instruction.StartFits
  /-- Then its shapes lie within its room. -/
  within : ∀ s ∈ d.seats, s.instruction.isAside = false → s.instruction.StartFits →
    ∀ t ∈ s.strips, t.Within s.left s.right
  /-- It is as wide as the columns in it together with the gaps between them. -/
  spread : ∀ s ∈ d.seats,
    Size.spread s.instruction.columnWidths ≤ s.instruction.size.width
  /-- The columns in which an instruction stands are columns of instructions, and have room for
  it. -/
  stands : Stands [] d.seats
  /-- What stands in different columns of one instruction keeps apart. -/
  apart : ∀ s ∈ d.seats, ∀ s' ∈ d.seats, s.instruction.isAside = false →
    s'.instruction.isAside = false → ∀ c ∈ s.columns, ∀ c' ∈ s'.columns, c.owner = c'.owner →
      c ≠ c' → s.Apart s'

/-- The rooms of the instructions of a text cover what is in them, apart from the boxes at the
starts of loops that are wider than the loops. -/
theorem covered_read (text parent : String) : (read text).Covered parent where
  instructions := map_instruction_seats _
  drawn := (spans_sketch _).perm_cells
  widths := fun s _ => Instruction.width_iff_startFits s.center s.instruction
  within := fun _ _ hroom hfits _ ht => Instruction.within_of_mem_strips hroom hfits ht
  spread := fun s _ => s.instruction.spread_columnWidths_le
  stands := stands_seats _
  apart := fun _ hs _ hs' hroom hroom' _ hc _ hc' howner hne =>
    (stands_seats _).apart (nodup_ids_seats_read text) hs hs' hroom hroom' hc hc' howner hne

/-- The box at the start of a loop is wider than the loop: it sticks out of the room of the loop and
lies over the box in the other branch of a decision. -/
theorem not_covered_start :
    let d := read ("if (a) then\nrepeat :a start that is much wider than its loop;\n:x;\n" ++
      "repeat while (b)\nelse\n:y;\nendif")
    ∃ s ∈ d.seats, ∃ s' ∈ d.seats, ∃ t ∈ s.strips, ∃ t' ∈ s'.strips,
      (some t ∈ Strip.drawn (d.draw "1") ∧ some t' ∈ Strip.drawn (d.draw "1")) ∧
      s.instruction.size.width < t.width ∧ t.left < s.left ∧ s.right < t.right ∧
      (∃ c ∈ s.columns, ∃ c' ∈ s'.columns, c.owner = c'.owner ∧ c ≠ c') ∧
      t.left < t'.left ∧ t'.left < t.right := by
  decide +kernel

end Diagram

end Activity
end UmlDraw
