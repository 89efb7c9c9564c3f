/-
# Where the shapes of a state diagram lie

The layout starts at the margin, an element stands inside the one around it, and so all elements lie
behind the margin.  There is no room for notes on the left of elements or above them; those may
stick out.

The main statements are

* `Diagram.isRoomy_measure`: an element has room for those in it;
* `Part.isBehind_place`: elements lie behind the corner of the arrangement around them;
* `Diagram.laid_draw_read`: where the shapes of a drawing lie.
-/
import UmlDraw.Proofs.Drawing.Laid
import UmlDraw.Proofs.State.Arrangement
import UmlDraw.Proofs.State.Growth
import UmlDraw.Proofs.State.Reader
import UmlDraw.State.Drawing

namespace UmlDraw
namespace State

/-- An element is at least as wide as the arrangement in it, in which nothing lies to the left of
the corner or above it, and so it is with the elements inside. -/
inductive Part.IsRoomy : Part → Prop
  | node {e : Element} {w h : Rat} {inside : Arrangement} {parts : List Part} (hw : 0 ≤ w)
      (hh : 0 ≤ h) (hwidth : inside.width ≤ w)
      (hcorner : ∀ p ∈ parts, 0 ≤ ((inside.corners.get? p.code).getD (0, 0)).1 ∧
        0 ≤ ((inside.corners.get? p.code).getD (0, 0)).2)
      (hparts : ∀ p ∈ parts, p.IsRoomy) : IsRoomy (node e w h inside parts)

lemma Part.IsRoomy.isProper {p : Part} (h : p.IsRoomy) : p.IsProper := by
  cases h with
  | node hw hh => exact ⟨hw, hh⟩

lemma Arrangement.Holds.getD_nonneg {a : Arrangement} {parts : List Part} (h : a.Holds parts)
    (code : String) :
    0 ≤ ((a.corners.get? code).getD (0, 0)).1 ∧ 0 ≤ ((a.corners.get? code).getD (0, 0)).2 := by
  cases hc : a.corners.get? code with
  | none => exact ⟨le_rfl, le_rfl⟩
  | some c =>
    obtain ⟨hx, hy, -⟩ := h.corner code c hc
    exact ⟨hx, hy⟩

namespace Part

mutual

/-- Elements lie behind the corner of the arrangement around them. -/
theorem isBehind_place {around : Arrangement} {X Y x y : Rat} (hx : X ≤ x) (hy : Y ≤ y) :
    (p : Part) → 0 ≤ ((around.corners.get? p.code).getD (0, 0)).1 ∧
      0 ≤ ((around.corners.get? p.code).getD (0, 0)).2 → p.IsRoomy →
    ∀ q ∈ place around x y p, X ≤ q.box.x ∧ Y ≤ q.box.y
  | node e w h inside parts, hcorner, hroomy => by
    obtain ⟨hw, hh, hwidth, hinside, hparts⟩ := hroomy
    simp only [code] at hcorner
    have hbox : X ≤ x + ((around.corners.get? e.code).getD (0, 0)).1 ∧
        Y ≤ y + ((around.corners.get? e.code).getD (0, 0)).2 := by
      constructor <;> linarith
    rw [place]
    refine List.forall_mem_cons.2 ⟨hbox, isBehind_placeAll ?_ ?_ parts hinside hparts⟩
    · change X ≤ x + ((around.corners.get? e.code).getD (0, 0)).1 + (w - inside.width) / 2
      linarith
    · change Y ≤ y + ((around.corners.get? e.code).getD (0, 0)).2 + compositeHeader + padding
      simp only [compositeHeader, padding]
      linarith

theorem isBehind_placeAll {around : Arrangement} {X Y x y : Rat} (hx : X ≤ x) (hy : Y ≤ y) :
    (parts : List Part) →
    (∀ p ∈ parts, 0 ≤ ((around.corners.get? p.code).getD (0, 0)).1 ∧
      0 ≤ ((around.corners.get? p.code).getD (0, 0)).2) → (∀ p ∈ parts, p.IsRoomy) →
    ∀ q ∈ placeAll around x y parts, X ≤ q.box.x ∧ Y ≤ q.box.y
  | [], _, _ => fun _ hq => nomatch hq
  | p :: rest, hcorner, hroomy => by
    obtain ⟨hp, hrest⟩ := List.forall_mem_cons.1 hcorner
    obtain ⟨hproomy, hrestroomy⟩ := List.forall_mem_cons.1 hroomy
    rw [placeAll]
    exact List.forall_mem_append.2 ⟨isBehind_place hx hy p hp hproomy,
      isBehind_placeAll hx hy rest hrest hrestroomy⟩

end

end Part

namespace Diagram

variable {d : Diagram}

/-- The size of an element with the sizes of those in it. -/
def measureElement (d : Diagram) (n : Nat) (e : Element) : Part :=
  if e.isComposite then
    match e.contents with
    | .direct members _ => enclose e (d.arrange (d.measure n members)) (d.measure n members)
    | .concurrent first middle last =>
      let regions := (first :: middle ++ [last]).map fun region => d.measure n region.members
      enclose e (Arrangement.stack (regions.map fun parts => (parts, d.arrange parts)))
        regions.flatten
  else .node e e.leafSize.1 e.leafSize.2 {} []

lemma measure_succ (d : Diagram) (n : Nat) (codes : List String) :
    d.measure (n + 1) codes = (codes.filterMap d.elements.get?).map (d.measureElement n) := rfl

lemma code_measureElement (d : Diagram) (n : Nat) (e : Element) :
    (d.measureElement n e).code = e.code := by
  unfold measureElement
  split
  · split <;> rfl
  · rfl

/-- What is measured for a code is the element with the code. -/
lemma eq_of_mem_measure (hd : d.Consistent) {n : Nat} {codes : List String} {p : Part}
    (hp : p ∈ d.measure (n + 1) codes) :
    ∃ e, d.elements.get? p.code = some e ∧ p = d.measureElement n e := by
  rw [measure_succ] at hp
  obtain ⟨e, he, rfl⟩ := List.mem_map.1 hp
  obtain ⟨code, -, he⟩ := List.mem_filterMap.1 he
  rw [code_measureElement, hd.code code e he]
  exact ⟨e, he, rfl⟩

/-- An element has one size, wherever it stands. -/
lemma agree_measure (hd : d.Consistent) (n : Nat) {parts : List Part}
    (h : ∀ p ∈ parts, ∃ codes, p ∈ d.measure n codes) : Part.Agree parts := by
  intro p hp q hq hcode
  obtain ⟨codes, hp⟩ := h p hp
  obtain ⟨codes', hq⟩ := h q hq
  cases n with
  | zero => cases hp
  | succ n =>
    obtain ⟨e, he, hpe⟩ := eq_of_mem_measure hd hp
    obtain ⟨e', he', hqe⟩ := eq_of_mem_measure hd hq
    rw [hcode, he'] at he
    rw [hpe, hqe, Option.some.inj he]

lemma map_code_measure (hd : d.Consistent) (n : Nat) (codes : List String) :
    (d.measure (n + 1) codes).map Part.code = codes.filter d.elements.contains := by
  rw [measure_succ, List.map_map]
  induction codes with
  | nil => rfl
  | cons code rest ih =>
    cases he : d.elements.get? code with
    | none =>
      rw [List.filterMap_cons_none he, ih, List.filter_cons_of_neg]
      simp [Keyed.contains, he]
    | some e =>
      rw [List.filterMap_cons_some he, List.map_cons, ih, List.filter_cons_of_pos]
      · rw [Function.comp_apply, code_measureElement, hd.code code e he]
      · simp [Keyed.contains, he]

lemma nodup_code_measure (hd : d.Consistent) (n : Nat) {codes : List String} (h : codes.Nodup) :
    ((d.measure n codes).map Part.code).Nodup := by
  cases n with
  | zero => exact List.nodup_nil
  | succ n =>
    rw [map_code_measure hd]
    exact h.filter _

/-- A composite state has room for the elements of an arrangement that holds them. -/
lemma isRoomy_enclose {e : Element} {inside : Arrangement} {parts : List Part}
    (h : inside.Holds parts) (hparts : ∀ p ∈ parts, p.IsRoomy) :
    (enclose e inside parts).IsRoomy := by
  have hwidth := h.width
  have hheight := h.height
  have hpadding : (0 : Rat) ≤ padding := by simp [padding]
  have hheader : (0 : Rat) ≤ compositeHeader := by simp [compositeHeader]
  have hright : inside.width + padding * 2 ≤
      Fraction.larger (textWidth e.display) (inside.width + padding * 2) :=
    Fraction.le_larger_right _ _
  refine .node ?_ ?_ ?_ (fun p _ => h.getD_nonneg p.code) hparts <;> linarith

/-- An element has room for those in it. -/
theorem isRoomy_measure (hd : d.Consistent) (hdistinct : d.IsDistinct) (n : Nat)
    (codes : List String) : ∀ p ∈ d.measure n codes, p.IsRoomy := by
  induction n generalizing codes with
  | zero => exact fun _ hp => nomatch hp
  | succ n ih =>
    intro p hp
    obtain ⟨e, he, rfl⟩ := eq_of_mem_measure hd hp
    have harrange : ∀ members, (d.arrange (d.measure n members)).Holds (d.measure n members) :=
      fun members => Axis.holds_arrange _ _ fun p hp => (ih members p hp).isProper
    unfold measureElement
    split
    · split
      · exact isRoomy_enclose (harrange _) (ih _)
      · next first middle last hcontents =>
        have hnodup : e.contents.IsDistinct := hdistinct _ e he
        rw [hcontents] at hnodup
        -- each region holds its elements, and lists each of them once
        have hregions : ∀ r ∈ ((first :: middle ++ [last]).map fun region =>
            d.measure n region.members).map fun parts => (parts, d.arrange parts),
            r.2.Holds r.1 ∧ (r.1.map Part.code).Nodup := by
          intro r hr
          rw [List.map_map] at hr
          obtain ⟨region, hregion, rfl⟩ := List.mem_map.1 hr
          exact ⟨harrange _, nodup_code_measure hd n (hnodup region hregion)⟩
        have hfst : (((first :: middle ++ [last]).map fun region =>
            d.measure n region.members).map fun parts => (parts, d.arrange parts)).map Prod.fst =
            (first :: middle ++ [last]).map fun region => d.measure n region.members := by
          rw [List.map_map]
          exact List.map_id _
        have hmem : ∀ p ∈ ((first :: middle ++ [last]).map fun region =>
            d.measure n region.members).flatten, ∃ codes, p ∈ d.measure n codes := by
          intro p hp
          obtain ⟨parts, hparts, hp⟩ := List.mem_flatten.1 hp
          obtain ⟨region, -, rfl⟩ := List.mem_map.1 hparts
          exact ⟨_, hp⟩
        have hstack := Arrangement.holds_stack hregions
          (by rw [hfst]; exact agree_measure hd n hmem)
        rw [hfst] at hstack
        refine isRoomy_enclose hstack fun p hp => ?_
        obtain ⟨codes, hp⟩ := hmem p hp
        exact ih codes p hp
    · exact .node (Nat.cast_nonneg _) (Nat.cast_nonneg _) (Nat.cast_nonneg _) (by simp) (by simp)

/-- The elements of a layout lie behind its corner. -/
theorem isBehind_layout (hd : d.Consistent) (hdistinct : d.IsDistinct) (x y : Rat) :
    ∀ p ∈ (d.layout x y).shapes, x ≤ p.box.x ∧ y ≤ p.box.y := by
  have hroomy := isRoomy_measure hd hdistinct (d.elements.entries.length + 1) d.roots
  have hholds := Axis.holds_arrange ⟨d.leftToRight⟩ (d.linksAmong
    ((d.measure (d.elements.entries.length + 1) d.roots).map Part.code))
    fun p hp => (hroomy p hp).isProper
  exact Part.isBehind_placeAll le_rfl le_rfl _ (fun p _ => hholds.getD_nonneg p.code) hroomy

end Diagram

/-! ### The drawing -/

open Sketch

variable {parent : String} {P : String → Geometry → Prop}

/-- A shape of a state diagram sticks out of the drawing, to the left or above, only if it is a
note. -/
def IsPlaced (style : String) (g : Geometry) : Prop :=
  (∃ color, style = (Relation.noteStyle color).render) ∨ g.StartsInside

lemma lays_boxed_of_nonneg (value : String) (style : Style) {b : Box} (hx : 0 ≤ b.x) (hy : 0 ≤ b.y) :
    (boxed value style b).Lays parent IsPlaced :=
  lays_boxed (.inr ⟨Number.atLeast_ratio.2 hx, Number.atLeast_ratio.2 hy⟩)

lemma lays_drawSeparators (b : Box) (ys : List Rat) :
    (drawSeparators b ys).Lays parent IsPlaced := by
  induction ys with
  | nil => exact lays_pure _
  | cons y rest ih =>
    unfold drawSeparators
    exact Lays.bind (lays_line _ _ (by simp) (by simp)) fun _ => ih

lemma lays_drawComposites (cells : Keyed String) {ps : List Placed}
    (h : ∀ p ∈ ps, 0 ≤ p.box.x ∧ 0 ≤ p.box.y) :
    (drawComposites cells ps).Lays parent IsPlaced := by
  induction ps generalizing cells with
  | nil => exact lays_pure _
  | cons p rest ih =>
    obtain ⟨hp, hrest⟩ := List.forall_mem_cons.1 h
    unfold drawComposites
    split
    · refine Lays.bind (lays_boxed_of_nonneg _ _ hp.1 hp.2) fun id => ?_
      exact Lays.bind (lays_drawSeparators _ _) fun _ => ih _ hrest
    · exact ih _ hrest

lemma lays_drawState (e : Element) {b : Box} (hx : 0 ≤ b.x) (hy : 0 ≤ b.y) :
    (drawState e b).Lays parent IsPlaced := by
  unfold drawState
  split
  · exact lays_boxed_of_nonneg _ _ hx hy
  · refine LaysAnd.bind_inner (by simp)
      (.inr ⟨Number.atLeast_ratio.2 hx, Number.atLeast_ratio.2 hy⟩) fun id => ?_
    exact (puts_part_exact _ _ _ (by simp)).returns

lemma lays_drawLeaf (e : Element) {b : Box} (hx : 0 ≤ b.x) (hy : 0 ≤ b.y) :
    (drawLeaf e b).Lays parent IsPlaced := by
  unfold drawLeaf
  split
  · exact lays_boxed_of_nonneg _ _ hx hy
  · refine Lays.bind (lays_boxed_of_nonneg _ _ hx hy) fun id => ?_
    refine Lays.bind (lays_boxed_of_nonneg _ _ ?_ ?_) fun _ => lays_pure _
    · simp only
      linarith
    · simp only
      linarith
  · exact lays_boxed_of_nonneg _ _ hx hy
  · exact lays_boxed_of_nonneg _ _ hx hy
  · exact lays_boxed_of_nonneg _ _ hx hy
  · exact lays_boxed_of_nonneg _ _ hx hy
  · exact lays_boxed_of_nonneg _ _ hx hy
  · exact lays_drawState e hx hy

lemma lays_drawLeaves (cells : Keyed String) {ps : List Placed}
    (h : ∀ p ∈ ps, 0 ≤ p.box.x ∧ 0 ≤ p.box.y) :
    (drawLeaves cells ps).Lays parent IsPlaced := by
  induction ps generalizing cells with
  | nil => exact lays_pure _
  | cons p rest ih =>
    obtain ⟨hp, hrest⟩ := List.forall_mem_cons.1 h
    unfold drawLeaves
    split
    · exact ih _ hrest
    · exact Lays.bind (lays_drawLeaf _ hp.1 hp.2) fun id => ih _ hrest

lemma lays_drawNotes (places : Keyed Box) (ts : List Transition) (cells : Keyed String)
    (free : Rat × Rat) (ns : List Note) :
    (drawNotes places ts cells free ns).Lays parent IsPlaced := by
  induction ns generalizing free with
  | nil => exact lays_pure _
  | cons n rest ih =>
    unfold drawNotes
    refine Lays.bind (lays_boxed (.inl ⟨n.color, rfl⟩)) fun id => ?_
    cases (Relation.noteShape n).bind cells.get? with
    | none =>
      split
      · exact ih _
      · exact ih _
    | some target =>
      split
      · exact Lays.bind (lays_connect _ _ _ _) fun _ => ih _
      · exact Lays.bind (lays_connect _ _ _ _) fun _ => ih _

lemma lays_drawTransitions (cells : Keyed String) (ts : List Transition) :
    (drawTransitions cells ts).Lays parent IsPlaced := by
  induction ts with
  | nil => exact lays_pure _
  | cons t rest ih =>
    unfold drawTransitions
    split
    · exact Lays.bind (lays_connect _ _ _ _) fun _ => ih
    · exact ih

namespace Diagram

variable {d : Diagram}

lemma lays_drawTitle (d : Diagram) :
    d.drawTitle.LaysAnd parent IsPlaced fun top => 0 ≤ top := by
  unfold drawTitle
  split
  · exact Lays.bind (lays_boxed_of_nonneg _ _ (by norm_num [margin]) le_rfl) fun _ =>
      LaysAnd.pure (by norm_num [margin])
  · exact LaysAnd.pure (by norm_num [margin])

lemma lays_sketch (hd : d.Consistent) (hdistinct : d.IsDistinct) :
    d.sketch.Lays parent IsPlaced := by
  unfold sketch
  refine LaysAnd.bind d.lays_drawTitle fun top htop => ?_
  have hmargin : 0 ≤ margin := by norm_num [margin]
  have hshapes : ∀ p ∈ (d.layout margin top).shapes, 0 ≤ p.box.x ∧ 0 ≤ p.box.y := by
    intro p hp
    obtain ⟨hx, hy⟩ := isBehind_layout hd hdistinct margin top p hp
    exact ⟨hmargin.trans hx, htop.trans hy⟩
  refine Lays.bind (lays_drawComposites _ hshapes) fun cells => ?_
  refine Lays.bind (lays_drawLeaves _ hshapes) fun cells => ?_
  exact Lays.bind (lays_drawNotes _ _ _ _ _) fun _ => lays_drawTransitions _ _

/-- Where the shapes of the state diagram of a text lie. -/
theorem laid_draw_read (text parent : String) :
    Cell.Laid parent IsPlaced ((read text).draw parent) :=
  (lays_sketch (consistent_read text) (distinct_read text)).laid

end Diagram
end State
end UmlDraw
