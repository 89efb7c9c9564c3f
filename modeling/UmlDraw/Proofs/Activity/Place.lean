/-
# Where the shapes of an activity diagram lie

Instructions stand around a center line, and half of their width has room on the left of it.  A
branch has a column of its own, which is as wide as its instructions; a lane is as wide as the
instructions in it.  There is no room for notes on the left, and none for a box at the start of a
loop that is wider than the loop; these may stick out.  An instruction in a lane with an empty name
stands around the center line of another lane.

The main statements are

* `Instruction.lays_draw` and the three lemmas beside it: where the shapes of an instruction, of a
  list of instructions and of branches lie, by induction on the instruction;
* `Diagram.laid_draw_read`: where the shapes of the drawing of a text lie.
-/
import UmlDraw.Activity.Drawing
import UmlDraw.Proofs.Activity.Count
import UmlDraw.Proofs.Activity.Order
import UmlDraw.Proofs.Drawing.Laid

namespace UmlDraw
namespace Activity

open Sketch

variable {parent : String} {lanes : Keyed Rat} {cx y : Rat}

/-! ### Sizes -/

namespace Size

/-- A fold that never goes below what it takes in. -/
lemma le_foldl {f : Nat → Nat → Nat} (hf : ∀ m n, m ≤ f m n ∧ n ≤ f m n) (least : Nat)
    (ns : List Nat) : least ≤ ns.foldl f least ∧ ∀ n ∈ ns, n ≤ ns.foldl f least := by
  induction ns generalizing least with
  | nil => simp
  | cons m rest ih =>
    obtain ⟨hleast, hrest⟩ := ih (f least m)
    refine ⟨(hf least m).1.trans hleast, ?_⟩
    exact List.forall_mem_cons.2 ⟨(hf least m).2.trans hleast, hrest⟩

/-- Columns side by side are at least as wide as each of them. -/
lemma le_spread {n : Nat} {widths : List Nat} (h : n ∈ widths) : n ≤ spread widths :=
  ((le_foldl (fun m n => ⟨Nat.le_add_right m n, Nat.le_add_left n m⟩) 0 widths).2 n h).trans
    (Nat.le_add_right _ _)

/-- A list is at least as wide as each of its instructions. -/
lemma width_le_stack {s : Size} {sizes : List Size} (h : s ∈ sizes) :
    s.width ≤ (stack sizes).width := by
  have hs : s.width ≤ maxWidth 0 sizes :=
    (le_foldl (fun m n => ⟨le_max_left m n, le_max_right m n⟩) 0 _).2 _ (List.mem_map_of_mem h)
  simp only [stack]
  split
  · omega
  · exact hs

end Size

namespace Instruction

lemma size_mem_flowSizes {i : Instruction} {is : List Instruction} (hi : i ∈ is)
    (hroom : i.isAside = false) : size i ∈ flowSizes is := by
  induction is with
  | nil => cases hi
  | cons j rest ih =>
    rw [flowSizes]
    rcases List.mem_cons.1 hi with rfl | hi
    · simp [hroom]
    · split
      · exact ih hi
      · exact List.mem_cons_of_mem _ (ih hi)

/-- A list is at least as wide as each of its instructions. -/
lemma width_le_sizeAll {i : Instruction} {is : List Instruction} (hi : i ∈ is)
    (hroom : i.isAside = false) : (size i).width ≤ (sizeAll is).width :=
  Size.width_le_stack (size_mem_flowSizes hi hroom)

/-! ### Room for an instruction -/

/-- The box at the start of a loop is no wider than the loop. -/
def StartFits : Instruction → Prop
  | i@(loop _ l _) => ∀ label, l.test = .after (some label) → (Size.box label).width ≤ (size i).width
  | _ => True

/-- An instruction fits: the box at its start, and it has room in its lane. -/
structure Fits (lanes : Keyed Rat) (i : Instruction) : Prop where
  start : i.StartFits
  lane : i.isAside = false → ∀ name, i.node.lane = some name → name.isEmpty = false →
    ∀ center, lanes.get? name = some center → ((size i).width : Rat) / 2 ≤ center

/-- An instruction has room around its center line, if it has room around that of its list. -/
lemma Fits.le_centerOf {i : Instruction} (h : i.Fits lanes) (hroom : i.isAside = false)
    (hcx : ((size i).width : Rat) / 2 ≤ cx) : ((size i).width : Rat) / 2 ≤ centerOf lanes i.node cx := by
  unfold centerOf
  split
  · next name hname =>
    split
    · exact hcx
    · next hempty =>
      cases hcenter : lanes.get? name with
      | none => exact hcx
      | some center => exact h.lane hroom name hname (by simpa using hempty) center hcenter
  · exact hcx

lemma mem_walkAll {i : Instruction} {is : List Instruction} (hi : i ∈ is) : i ∈ walkAll is := by
  obtain ⟨before, after, rfl⟩ := List.append_of_mem hi
  rw [walkAll_append, walkAll, walk_eq]
  simp

/-- The instructions of a list have room around their center lines, if the list has room around
its own. -/
lemma le_centerOf_of_le {is : List Instruction} (hfits : ∀ i ∈ walkAll is, i.Fits lanes)
    (hcx : ((sizeAll is).width : Rat) / 2 ≤ cx) :
    ∀ i ∈ is, i.isAside = false → ((size i).width : Rat) / 2 ≤ centerOf lanes i.node cx := by
  intro i hi hroom
  have hwidth : ((size i).width : Rat) ≤ (sizeAll is).width :=
    Nat.cast_le.2 (width_le_sizeAll hi hroom)
  exact (hfits i (mem_walkAll hi)).le_centerOf hroom (by linarith)

end Instruction

/-! ### The shapes of an instruction -/

/-- A shape is a note, or it sticks out of the drawing neither to the left nor above. -/
def IsPlaced (style : String) (g : Geometry) : Prop :=
  (∃ color, style = (noteStyle color).render) ∨ g.StartsInside

lemma isPlaced_exact {x y : Rat} (hx : 0 ≤ x) (hy : 0 ≤ y) (style : String) (width height : Number) :
    IsPlaced style { x := .ratio x, y := .ratio y, width := width, height := height } :=
  .inr ⟨Number.atLeast_ratio.2 hx, Number.atLeast_ratio.2 hy⟩

lemma lays_drawAround (value : String) (style : Style) {size : Size}
    (hx : (size.width : Rat) / 2 ≤ cx) (hy : 0 ≤ y) :
    (drawAround value style cx y size).Lays parent IsPlaced :=
  lays_shape (by simp) (isPlaced_exact (sub_nonneg.2 hx) hy _ _ _)

lemma lays_drawDiamond (label : String) (color : Option String) (hx : 20 ≤ cx) (hy : 0 ≤ y) :
    (drawDiamond label color cx y).Lays parent IsPlaced := by
  refine lays_drawAround _ _ ?_ hy
  norm_num [Size.diamond]
  exact hx

/-- The place where branches meet is above the lower side of an instruction that is high enough. -/
lemma lays_drawMerge {height : Nat} (hx : 20 ≤ cx) (hy : 0 ≤ y) (hheight : 20 ≤ height) :
    (drawMerge cx y height).Lays parent IsPlaced := by
  have hheight' : (20 : Rat) ≤ height := by exact_mod_cast hheight
  refine lays_drawAround _ _ ?_ ?_
  · norm_num [Size.diamond]
    linarith
  · norm_num [Size.diamond]
    linarith

lemma lays_drawFlow {P : String → Geometry → Prop} (source target label color : Option String)
    (dashed : Bool) : (drawFlow source target label color dashed).Lays parent P := by
  unfold drawFlow
  split
  · exact (lays_connect _ _ _ _).bind fun _ => lays_pure _
  · exact lays_pure _

lemma lays_drawPlain {P : String → Geometry → Prop} (source target label : Option String) :
    (drawPlain source target label).Lays parent P :=
  lays_drawFlow _ _ _ _ _

lemma lays_drawBack {P : String → Geometry → Prop} (source target : String)
    (label : Option String) : (drawBack source target label).Lays parent P :=
  (lays_connect _ _ _ _).bind fun _ => lays_pure _

/-- A note is drawn by its list. -/
lemma lays_drawStep {s : Step} (n : Node)
    (hx : (Instruction.step n s).isAside = false → ((Size.ofStep s).width : Rat) / 2 ≤ cx)
    (hy : 0 ≤ y) : (drawStep cx y s).Lays parent IsPlaced := by
  unfold drawStep
  cases s with
  | action | start | kill => exact (lays_drawAround _ _ (hx rfl) hy).bind fun _ => lays_pure _
  | stop | finish =>
    have hcenter := hx rfl
    refine (lays_drawAround _ _ hcenter hy).bind fun _ => ?_
    refine (lays_drawAround _ _ ?_ ?_).bind fun _ => lays_pure _
    · simp only [Size.ofStep, Size.circle] at hcenter
      norm_num at hcenter ⊢
      linarith
    · linarith
  | leave | arrow | note => exact lays_pure _

lemma laysAnd_join (c : Chain) (ends : Ends) (exitLabel : Option String) :
    (c.join ends exitLabel).LaysAnd parent IsPlaced fun c' => c'.y = c.y := by
  have hrest : (
      if ends.entry.isSome || ends.exit.isSome then
        pure { c with entry := c.entry.or ends.entry, pending := none, exit := ends.exit,
                      exitLabel := exitLabel }
      else pure { c with entry := c.entry.or ends.entry, pending := none } :
        Sketch Chain).LaysAnd parent IsPlaced fun c' => c'.y = c.y := by
    split <;> exact LaysAnd.pure rfl
  unfold Chain.join
  dsimp only
  split
  · split
    · exact (lays_drawFlow _ _ _ _ _).bind fun _ => hrest
    · exact (lays_drawPlain _ _ _).bind fun _ => hrest
  · exact hrest

lemma lays_drawNote (cx y : Rat) (n : Note) : (drawNote cx y n).Lays parent IsPlaced := by
  unfold drawNote
  exact (lays_shape (by simp) (.inl ⟨n.color, rfl⟩)).bind fun _ => lays_pure _

namespace Instruction

/-- The middle of a column that is as wide as the instructions in it. -/
lemma half_le_center {left : Rat} (hleft : 0 ≤ left) (body : List Instruction) (least : Nat) :
    ((sizeAll body).width : Rat) / 2 ≤ left + (max (sizeAll body).width least : Nat) / 2 := by
  have hwidth : ((sizeAll body).width : Rat) ≤ (max (sizeAll body).width least : Nat) :=
    Nat.cast_le.2 (le_max_left _ _)
  linarith

/-- The middle of a column that has room for a decision. -/
lemma twenty_le_center {left : Rat} (hleft : 0 ≤ left) (body : List Instruction) :
    20 ≤ left + (max (sizeAll body).width Size.diamond : Nat) / 2 := by
  have hdiamond : (40 : Rat) ≤ (max (sizeAll body).width Size.diamond : Nat) :=
    Nat.cast_le.2 (le_max_right _ _)
  linarith

lemma laysAnd_joinBranch {β : Type} {Q : β → Prop} (ends : Ends) (source target : String)
    (label : Option String) {s : Sketch β} (hs : s.LaysAnd parent IsPlaced Q) :
    (do
      drawPlain source (ends.entry.or target) label
      if ends.entry.isSome then drawPlain ends.exit target none
      s : Sketch β).LaysAnd parent IsPlaced Q := by
  refine (lays_drawPlain _ _ _).bind fun _ => ?_
  dsimp only
  split
  · exact (lays_drawPlain _ _ _).bind fun _ => hs
  · exact hs

/-! The widths of instructions with instructions inside. -/

lemma diamond_le_width_choice {n : Node} {c : Choice} {first last : List Instruction}
    {others : List (Branch Instruction)} (h : ¬ onlyLeaves first others last = true) :
    Size.diamond ≤ (size (choice n c first others last)).width := by
  rw [size, if_neg h]
  exact (le_max_right (sizeAll first).width Size.diamond).trans (Size.le_spread List.mem_cons_self)

lemma sizeAll_le_width_loop (n : Node) (l : Loop) (body : List Instruction) :
    (sizeAll body).width ≤ (size (loop n l body)).width ∧
      Size.diamond ≤ (size (loop n l body)).width := by
  simp only [size, sizeAll]
  omega

/-- The bars of a fork are no wider than the fork. -/
lemma half_bar_le_width (n : Node) (isSplit : Bool) (branches : List (Branch Instruction)) :
    Fraction.larger Size.barWidth
        (Size.spread (Size.columns Size.boxWidth (branchSizes branches)) * 7 / 10) / 2 ≤
      ((size (fork n isSplit branches)).width : Rat) / 2 := by
  have hspread : (Size.spread (Size.columns Size.boxWidth (branchSizes branches)) : Rat) ≤
      (size (fork n isSplit branches)).width :=
    Nat.cast_le.2 (le_max_left _ _)
  have hbar : (Size.barWidth : Rat) ≤ (size (fork n isSplit branches)).width :=
    Nat.cast_le.2 (le_max_right _ _)
  have hnonneg : (0 : Rat) ≤ Size.spread (Size.columns Size.boxWidth (branchSizes branches)) :=
    Nat.cast_nonneg _
  unfold Fraction.larger
  split <;> linarith

-- The four lemmas go through an instruction as the four functions do.
mutual

theorem lays_draw {cx y : Rat} : (i : Instruction) → (∀ j ∈ i.walk, j.Fits lanes) →
    (i.isAside = false → ((size i).width : Rat) / 2 ≤ cx) → 0 ≤ y →
    (draw lanes cx y i).Lays parent IsPlaced
  | step n s, _, hcx, hy => by
    unfold draw
    exact lays_drawStep n hcx hy
  | choice n c first others last, hfits, hcx, hy => by
    have hwidth := hcx rfl
    rw [walk] at hfits
    obtain ⟨-, hinside⟩ := List.forall_mem_cons.1 hfits
    obtain ⟨hrest, hlast⟩ := List.forall_mem_append.1 hinside
    obtain ⟨hfirst, hothers⟩ := List.forall_mem_append.1 hrest
    unfold draw
    split
    · next honly =>
      rw [size, if_pos honly] at hwidth
      norm_num [Size.diamond] at hwidth
      exact (lays_drawDiamond _ _ hwidth hy).bind fun _ => lays_pure _
    · next honly =>
      have hdiamond : (40 : Rat) ≤ (size (choice n c first others last)).width := by
        exact_mod_cast diamond_le_width_choice honly
      have hheight : 20 ≤ (size (choice n c first others last)).height := by
        rw [size, if_neg honly]
        simp only [Size.between, Size.diamond]
        omega
      have hleft : (0 : Rat) ≤ cx - (size (choice n c first others last)).width / 2 :=
        sub_nonneg.2 hwidth
      have hinner : 0 ≤ y + Size.diamond + Size.rowGap := by positivity
      refine (lays_drawDiamond _ _ ?_ hy).bind fun diamond => ?_
      · split
        · linarith
        · exact twenty_le_center hleft first
      refine (lays_drawMerge (by linarith) hy hheight).bind fun merge => ?_
      refine (lays_drawAll first hfirst (le_centerOf_of_le hfirst ?_) hinner).bind fun ends => ?_
      · exact half_le_center hleft first _
      refine laysAnd_joinBranch ends diamond merge _ ?_
      refine (laysAnd_drawOthers merge diamond others hothers hy ?_).bind ?_
      · positivity
      rintro ⟨lastDiamond, left⟩ hleft'
      refine (lays_drawAll last hlast (le_centerOf_of_le hlast ?_) hinner).bind fun ends => ?_
      · exact half_le_center hleft' last _
      exact laysAnd_joinBranch ends lastDiamond merge _ (lays_pure _)
  | loop n l body, hfits, hcx, hy => by
    have hwidth := hcx rfl
    rw [walk] at hfits
    obtain ⟨⟨hstart, -⟩, hbody⟩ := List.forall_mem_cons.1 hfits
    obtain ⟨hsize, hdiamond⟩ := sizeAll_le_width_loop n l body
    have hcenter : (20 : Rat) ≤ cx := by
      have : (40 : Rat) ≤ (size (loop n l body)).width := by exact_mod_cast hdiamond
      linarith
    have hbodies : ∀ i ∈ body, i.isAside = false →
        ((size i).width : Rat) / 2 ≤ centerOf lanes i.node cx := by
      refine le_centerOf_of_le hbody ?_
      have : ((sizeAll body).width : Rat) ≤ (size (loop n l body)).width := Nat.cast_le.2 hsize
      linarith
    unfold draw
    cases htest : l.test with
    | before =>
      refine (lays_drawDiamond _ _ hcenter hy).bind fun diamond => ?_
      refine (lays_drawAll body hbody hbodies ?_).bind fun ends => ?_
      · positivity
      refine (lays_drawPlain _ _ _).bind fun _ => ?_
      dsimp only
      split
      · exact (lays_drawBack _ _ _).bind fun _ => lays_pure _
      · exact lays_pure _
    | after startLabel =>
      have hrest : ∀ (start : Option String) {inner : Rat}, 0 ≤ inner → (do
          let ends ← drawAll lanes cx { y := inner, lastY := inner } body
          drawPlain start ends.entry none
          let diamond ← drawDiamond l.condition l.color cx
            (inner + (sizeAll body).height + Size.rowGap)
          drawPlain ends.exit diamond none
          let top := (start.or ends.entry).getD diamond
          drawBack diamond top l.againLabel
          pure ⟨some top, some diamond⟩ : Sketch Ends).Lays parent IsPlaced := by
        intro start inner hinner
        refine (lays_drawAll body hbody hbodies hinner).bind fun ends => ?_
        refine (lays_drawPlain _ _ _).bind fun _ => ?_
        refine (lays_drawDiamond _ _ hcenter (by positivity)).bind fun diamond => ?_
        refine (lays_drawPlain _ _ _).bind fun _ => ?_
        exact (lays_drawBack _ _ _).bind fun _ => lays_pure _
      cases startLabel with
      | none => exact hrest none hy
      | some label =>
        have hbox : ((Size.box label).width : Rat) ≤ (size (loop n l body)).width :=
          Nat.cast_le.2 (hstart label htest)
        refine (lays_drawAround _ _ (by linarith) hy).bind fun id => ?_
        exact hrest (some id) (by positivity)
  | switch n condition color cases, hfits, hcx, hy => by
    have hwidth := hcx rfl
    rw [walk] at hfits
    obtain ⟨-, hcases⟩ := List.forall_mem_cons.1 hfits
    have hdiamond : (40 : Rat) ≤ (size (switch n condition color cases)).width := by
      exact_mod_cast le_max_right _ Size.diamond
    have hheight : 20 ≤ (size (switch n condition color cases)).height := by
      simp only [size, Size.between, Size.diamond]
      omega
    unfold draw
    refine (lays_drawDiamond _ _ (by linarith) hy).bind fun diamond => ?_
    refine (lays_drawMerge (by linarith) hy hheight).bind fun merge => ?_
    refine (lays_drawBranches _ _ cases hcases ?_ (sub_nonneg.2 hwidth)).bind fun _ => lays_pure _
    positivity
  | fork n isSplit branches, hfits, hcx, hy => by
    have hwidth := hcx rfl
    rw [walk] at hfits
    obtain ⟨-, hbranches⟩ := List.forall_mem_cons.1 hfits
    have hbar : ∀ {y : Rat}, 0 ≤ y → (Sketch.shape "" barStyle
        (.ratio (cx - Fraction.larger Size.barWidth
          (Size.spread (Size.columns Size.boxWidth (branchSizes branches)) * 7 / 10) / 2)) (.ratio y)
        (.ratio (Fraction.larger Size.barWidth
          (Size.spread (Size.columns Size.boxWidth (branchSizes branches)) * 7 / 10)))
        (.int Size.bar)).Lays parent IsPlaced := by
      intro y hy
      refine lays_shape (by simp) (isPlaced_exact (sub_nonneg.2 ?_) hy _ _ _)
      exact (half_bar_le_width n isSplit branches).trans hwidth
    unfold draw
    refine (hbar hy).bind fun top => ?_
    refine (hbar ?_).bind fun bottom => ?_
    · have hheight : (Size.bar : Rat) ≤ (size (fork n isSplit branches)).height := by
        refine Nat.cast_le.2 ?_
        simp only [size, Size.between, Size.bar]
        omega
      linarith
    refine (lays_drawBranches _ _ branches hbranches ?_ (sub_nonneg.2 hwidth)).bind fun _ =>
      lays_pure _
    positivity
  | partition n name color body, hfits, hcx, hy => by
    have hwidth := hcx rfl
    rw [walk] at hfits
    obtain ⟨-, hbody⟩ := List.forall_mem_cons.1 hfits
    unfold draw
    refine (lays_drawAround _ _ hwidth hy).bind fun frame => ?_
    refine (lays_drawAll body hbody (le_centerOf_of_le hbody ?_) ?_).bind fun ends => ?_
    · have hsize : ((sizeAll body).width : Rat) ≤ (size (partition n name color body)).width := by
        refine Nat.cast_le.2 ?_
        simp only [size, sizeAll]
        omega
      linarith
    · positivity
    · split <;> exact lays_pure _

theorem lays_drawAll {cx : Rat} : (is : List Instruction) → (∀ j ∈ walkAll is, j.Fits lanes) →
    (∀ i ∈ is, i.isAside = false → ((size i).width : Rat) / 2 ≤ centerOf lanes i.node cx) →
    {c : Chain} → 0 ≤ c.y → (drawAll lanes cx c is).Lays parent IsPlaced
  | [], _, _, c, _ => by
    unfold drawAll
    exact lays_pure _
  | i :: rest, hfits, hcx, c, hy => by
    rw [walkAll] at hfits
    obtain ⟨hi, hrest⟩ := List.forall_mem_append.1 hfits
    obtain ⟨hcenter, hcenters⟩ := List.forall_mem_cons.1 hcx
    unfold drawAll
    split
    · next heq => cases heq
    · next n a _ heq =>
      obtain ⟨rfl, rfl⟩ := List.cons.inj heq
      exact lays_drawAll rest hrest hcenters hy
    · next n note _ heq =>
      obtain ⟨rfl, rfl⟩ := List.cons.inj heq
      refine (lays_drawNote _ _ _).bind fun _ => lays_drawAll rest hrest hcenters ?_
      dsimp only
      split <;> exact hy
    · next heq =>
      obtain ⟨rfl, rfl⟩ := List.cons.inj heq
      refine (lays_draw i hi hcenter hy).bind fun ends => ?_
      refine (laysAnd_join c ends _).bind fun c' hc' => lays_drawAll rest hrest hcenters ?_
      split
      · rwa [hc']
      · rw [hc']
        positivity

theorem laysAnd_drawOthers {y left : Rat} (merge before : String) :
    (others : List (Branch Instruction)) → (∀ j ∈ walkBranches others, j.Fits lanes) →
    0 ≤ y → 0 ≤ left →
    (drawOthers lanes y merge before left others).LaysAnd parent IsPlaced fun r => 0 ≤ r.2
  | [], _, _, hleft => by
    unfold drawOthers
    exact LaysAnd.pure hleft
  | ⟨condition, label, body⟩ :: rest, hfits, hy, hleft => by
    rw [walkBranches] at hfits
    obtain ⟨hbody, hrest⟩ := List.forall_mem_append.1 hfits
    unfold drawOthers
    refine (lays_drawDiamond _ _ (twenty_le_center hleft body) hy).bind fun diamond => ?_
    refine (lays_drawPlain _ _ _).bind fun _ => ?_
    refine (lays_drawAll body hbody (le_centerOf_of_le hbody ?_) (by positivity)).bind fun ends => ?_
    · exact half_le_center hleft body _
    refine laysAnd_joinBranch ends diamond merge _ ?_
    exact laysAnd_drawOthers merge diamond rest hrest hy (by positivity)

theorem lays_drawBranches {y left : Rat} (source target : String) :
    (branches : List (Branch Instruction)) → (∀ j ∈ walkBranches branches, j.Fits lanes) →
    0 ≤ y → 0 ≤ left → (drawBranches lanes y source target left branches).Lays parent IsPlaced
  | [], _, _, _ => by
    unfold drawBranches
    exact lays_pure _
  | ⟨condition, _, body⟩ :: rest, hfits, hy, hleft => by
    rw [walkBranches] at hfits
    obtain ⟨hbody, hrest⟩ := List.forall_mem_append.1 hfits
    unfold drawBranches
    refine (lays_drawAll body hbody (le_centerOf_of_le hbody ?_) hy).bind fun ends => ?_
    · exact half_le_center hleft body _
    refine (lays_drawPlain _ _ _).bind fun _ => ?_
    refine (lays_drawPlain _ _ _).bind fun _ => ?_
    exact lays_drawBranches source target rest hrest hy (by positivity)

end

end Instruction

/-! ### Lanes -/

/-- The boxes at the starts of loops fit, and every lane has a name. -/
structure Diagram.IsRoomy (d : Diagram) : Prop where
  starts : ∀ i ∈ Instruction.walkAll d.instructions, i.StartFits
  lanes : "" ∉ d.lanes.keys

namespace Diagram

variable {d : Diagram}

lemma lane_mem_keys_read (text : String) : ∀ i ∈ Instruction.walkAll (read text).instructions,
    ∀ name, i.node.lane = some name → name ∈ (read text).lanes.keys := by
  intro i hi name hname
  have hordered := Reader.stable_ordered.read (fun _ => trivial) (fun _ _ => trivial)
    (Source.lines text) fun _ _ _ _ => trivial
  have hmem : i.mark ∈ ((Source.lines text).foldl Reader.step {}).marks :=
    (Reader.marks_unwind_sublist _ _).subset (List.mem_map_of_mem hi)
  exact hordered.lanes _ hmem name (by simpa using hname)

/-- A lane is at least as wide as each instruction in it. -/
lemma width_le_laneWidth {i : Instruction} (hi : i ∈ Instruction.walkAll d.instructions)
    (hroom : i.isAside = false) {name : String}
    (hname : (i.node.lane.filter fun n => !n.isEmpty).getD outside = name) :
    i.size.width ≤ d.laneWidth name := by
  have hmem : i.size.width ∈ ((Instruction.walkAll d.instructions).filter fun i =>
      !i.isAside && (i.node.lane.filter fun n => !n.isEmpty).getD outside == name).map fun i =>
        i.size.width := by
    refine List.mem_map_of_mem (List.mem_filter.2 ⟨hi, ?_⟩)
    simp [hroom, hname]
  refine (Size.le_foldl ?_ 200 _).2 _ hmem
  intro m n
  omega

lemma width_of_get?_placeLanes {places : Keyed (Nat × Nat)} (x : Nat) (names : List String)
    (h : ∀ name place, places.get? name = some place → place.2 = d.laneWidth name) :
    ∀ name place, (d.placeLanes x names places).get? name = some place →
      place.2 = d.laneWidth name := by
  induction names generalizing x places with
  | nil => exact h
  | cons first rest ih =>
    refine ih _ fun name place hplace => ?_
    rw [Keyed.get?_insert] at hplace
    split at hplace
    · next hname => rw [← Option.some.inj hplace, hname]
    · exact h name place hplace

/-- The center lines of the lanes. -/
def centers (d : Diagram) : Keyed Rat :=
  (d.placeLanes margin d.laneNames Keyed.empty).map fun _ place => place.1 + place.2 / 2

/-- Half of a lane has room on the left of its center line. -/
lemma half_laneWidth_le {name : String} {center : Rat} (h : d.centers.get? name = some center) :
    (d.laneWidth name : Rat) / 2 ≤ center := by
  rw [centers, Keyed.get?_map] at h
  obtain ⟨place, hplace, rfl⟩ := Option.map_eq_some_iff.1 h
  have hempty : ∀ name place, (Keyed.empty : Keyed (Nat × Nat)).get? name = some place →
      place.2 = d.laneWidth name := fun _ _ h => nomatch h
  rw [← width_of_get?_placeLanes _ _ hempty name place hplace]
  have hleft : (0 : Rat) ≤ place.1 := Nat.cast_nonneg _
  linarith

lemma exists_center {name : String} (h : name ∈ d.laneNames) :
    ∃ center, d.centers.get? name = some center := by
  rw [← Keyed.mem_keys_iff, centers, Keyed.keys_map]
  exact mem_keys_placeLanes d _ _ _ (.inr h)

lemma fits_of_isRoomy (hd : d.IsRoomy) :
    ∀ i ∈ Instruction.walkAll d.instructions, i.Fits d.centers := by
  intro i hi
  refine ⟨hd.starts i hi, fun hroom name hname hempty center hcenter => ?_⟩
  have hwidth : ((i.size.width : Nat) : Rat) ≤ d.laneWidth name := by
    refine Nat.cast_le.2 (width_le_laneWidth hi hroom ?_)
    rw [hname, Option.filter_some, hempty]
    rfl
  have hhalf := half_laneWidth_le hcenter
  linarith

/-- The instructions at the top have room around the center lines of their lanes. -/
lemma le_centerOf_first (hd : d.IsRoomy)
    (hlanes : ∀ i ∈ d.instructions, ∀ name, i.node.lane = some name → name ∈ d.lanes.keys) :
    ∀ i ∈ d.instructions, i.isAside = false → (i.size.width : Rat) / 2 ≤
      centerOf d.centers i.node ((d.laneNames.head?.bind d.centers.get?).getD 0) := by
  intro i hi hroom
  have hmem := Instruction.mem_walkAll hi
  unfold centerOf
  cases hname : i.node.lane with
  | some name =>
    have hkey := hlanes i hi name hname
    have hempty : name.isEmpty = false := by
      rw [← Bool.not_eq_true, String.isEmpty_iff]
      rintro rfl
      exact hd.lanes hkey
    obtain ⟨center, hcenter⟩ := exists_center (mem_laneNames hkey)
    dsimp only
    rw [hempty, hcenter]
    exact (fits_of_isRoomy hd i hmem).lane hroom name hname hempty center hcenter
  | none =>
    have hnames : d.laneNames = outside :: d.lanes.keys := by
      rw [laneNames, if_pos]
      exact List.any_eq_true.2 ⟨i, hi, by rw [hname]; rfl⟩
    obtain ⟨center, hcenter⟩ := exists_center (d := d) (hnames ▸ List.mem_cons_self)
    have hwidth : (i.size.width : Rat) ≤ d.laneWidth outside := by
      refine Nat.cast_le.2 (width_le_laneWidth hmem hroom ?_)
      rw [hname]
      rfl
    have hhalf := half_laneWidth_le hcenter
    rw [hnames]
    dsimp only [List.head?_cons, Option.bind_some]
    rw [hcenter]
    dsimp only [Option.getD_some]
    linarith

lemma lays_drawLanes (places : Keyed (Nat × Nat)) (y height : Nat) (ls : List Lane) :
    (drawLanes places y height ls).Lays parent IsPlaced := by
  induction ls with
  | nil => exact lays_pure _
  | cons l rest ih =>
    unfold drawLanes
    split
    · next x width _ =>
      refine (lays_shape (by simp) (.inr ⟨?_, ?_⟩)).bind fun _ => ih
      · exact Number.atLeast_int.2 (by simp)
      · exact Number.atLeast_int.2 (by simp)
    · exact ih

lemma lays_sketch (hd : d.IsRoomy)
    (hlanes : ∀ i ∈ d.instructions, ∀ name, i.node.lane = some name → name ∈ d.lanes.keys) :
    d.sketch.Lays parent IsPlaced := by
  have hbody : ∀ top : Nat, (
      if d.lanes.keys.isEmpty then do
        let _ ← Instruction.drawAll Keyed.empty
          (margin + (Instruction.sizeAll d.instructions).width / 2) { y := top, lastY := top }
          d.instructions
      else do
        drawLanes (d.placeLanes margin d.laneNames Keyed.empty) (top - margin)
          ((Instruction.sizeAll d.instructions).height + laneHeader + margin * 2) d.lanes.values
        let _ ← Instruction.drawAll d.centers ((d.laneNames.head?.bind d.centers.get?).getD 0)
          { y := top + laneHeader, lastY := top + laneHeader } d.instructions :
      Sketch Unit).Lays parent IsPlaced := by
    intro top
    have htop : (0 : Rat) ≤ top := Nat.cast_nonneg _
    split
    · have hfits : ∀ i ∈ Instruction.walkAll d.instructions, i.Fits Keyed.empty := fun i hi =>
        ⟨hd.starts i hi, fun _ _ _ _ _ h => nomatch h⟩
      refine (Instruction.lays_drawAll _ hfits (Instruction.le_centerOf_of_le hfits ?_) htop).bind
        fun _ => lays_pure _
      exact le_add_of_nonneg_left (Nat.cast_nonneg _)
    · refine (lays_drawLanes _ _ _ _).bind fun _ => ?_
      refine (Instruction.lays_drawAll _ (fits_of_isRoomy hd) (le_centerOf_first hd hlanes) ?_).bind
        fun _ => lays_pure _
      positivity
  unfold sketch
  cases d.title.filter fun t => !t.isEmpty with
  | none => exact hbody _
  | some t =>
    refine (lays_shape (by simp) (.inr ⟨?_, ?_⟩)).bind fun _ => hbody _
    · exact Number.atLeast_int.2 (by simp)
    · exact Number.atLeast_int.2 (by simp)

/-- Where the shapes of the drawing of a text lie, if there is room for the boxes at the starts of
loops and every lane has a name. -/
theorem laid_draw_read {text : String} (h : (read text).IsRoomy) (parent : String) :
    Cell.Laid parent IsPlaced ((read text).draw parent) :=
  (lays_sketch h fun i hi =>
    lane_mem_keys_read text i (Instruction.mem_walkAll hi)).laid

end Diagram
end Activity
end UmlDraw
