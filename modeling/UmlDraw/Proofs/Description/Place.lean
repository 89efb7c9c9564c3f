/-
# Where the shapes of a use case or component diagram lie

The layout starts at a corner and goes on to the right and downwards; only the ports on the borders
of containers reach a little over them.  The corner leaves enough room on the left for notes there,
but not above: a note above a shape may stick out.

The main statements are

* `Plan.isBehind_placeContainer`: a container with its contents lies behind its corner;
* `Diagram.isBehind_layout`: how far ports reach over the corner of the layout;
* `Diagram.laid_draw`: where the shapes of a drawing lie.
-/
import Mathlib.Data.List.Fold
import Mathlib.Data.List.MinMax
import UmlDraw.Description.Drawing
import UmlDraw.Proofs.Drawing.Laid
import UmlDraw.Proofs.Layout.Layering

namespace UmlDraw
namespace Description

/-- The boxes of a layout lie behind a corner, and those of containers are large enough for a
port. -/
structure Layout.IsBehind (X Y : Rat) (l : Layout) : Prop where
  shapes : l.shapes.All (Box.IsBehind X Y)
  containers : l.containers.All fun b => b.IsBehind X Y ∧ 12 ≤ b.width ∧ 12 ≤ b.height

namespace Plan

variable {p : Plan} {l : Layout} {X Y : Rat}

lemma le_foldl_max {f : String → Nat} {layer : List String} {code : String} (h : code ∈ layer) :
    ((f code : Nat) : Rat) ≤ ((layer.map f).foldl max 0 : Nat) := by
  have hmem : f code ∈ layer.map f := List.mem_map_of_mem h
  rw [List.foldl_eq_foldr]
  exact Nat.cast_le.2 (List.le_max_of_le' 0 hmem le_rfl)

lemma isBehind_placeColumn (p : Plan) {x width y : Rat} {shapes : Keyed Box} (codes : List String)
    (hx : X ≤ x) (hy : Y ≤ y) (hshapes : shapes.All (Box.IsBehind X Y))
    (hwidth : ∀ code ∈ codes, ((p.sizeOf code).1 : Rat) ≤ width) :
    (p.placeColumn x width y shapes codes).1.All (Box.IsBehind X Y) := by
  induction codes generalizing y shapes with
  | nil => exact hshapes
  | cons code rest ih =>
    obtain ⟨hcode, hrest⟩ := List.forall_mem_cons.1 hwidth
    have hheight : (0 : Rat) ≤ (p.sizeOf code).2 := Nat.cast_nonneg _
    rw [placeColumn]
    refine ih ?_ (hshapes.insert ⟨?_, hy, Nat.cast_nonneg _, hheight⟩) hrest
    · simp only [smallGap]
      linarith
    · change X ≤ x + (width - (p.sizeOf code).1) / 2
      linarith

lemma isBehind_placeRow (p : Plan) {y height x : Rat} {shapes : Keyed Box} (codes : List String)
    (hx : X ≤ x) (hy : Y ≤ y) (hshapes : shapes.All (Box.IsBehind X Y))
    (hheight : ∀ code ∈ codes, ((p.sizeOf code).2 : Rat) ≤ height) :
    (p.placeRow y height x shapes codes).1.All (Box.IsBehind X Y) := by
  induction codes generalizing x shapes with
  | nil => exact hshapes
  | cons code rest ih =>
    obtain ⟨hcode, hrest⟩ := List.forall_mem_cons.1 hheight
    have hwidth : (0 : Rat) ≤ (p.sizeOf code).1 := Nat.cast_nonneg _
    rw [placeRow]
    refine ih ?_ (hshapes.insert ⟨hx, ?_, hwidth, Nat.cast_nonneg _⟩) hrest
    · simp only [gap]
      linarith
    · change Y ≤ y + (height - (p.sizeOf code).2) / 2
      linarith

lemma isBehind_placeColumns (p : Plan) {x y right bottom : Rat} {shapes : Keyed Box}
    (layers : List (List String)) (hx : X ≤ x) (hy : Y ≤ y) (hright : X ≤ right)
    (hbottom : Y ≤ bottom) (hshapes : shapes.All (Box.IsBehind X Y)) :
    (p.placeColumns x y right bottom shapes layers).1.All (Box.IsBehind X Y) ∧
      X ≤ (p.placeColumns x y right bottom shapes layers).2.1 ∧
      Y ≤ (p.placeColumns x y right bottom shapes layers).2.2 := by
  induction layers generalizing x right bottom shapes with
  | nil => exact ⟨hshapes, hright, hbottom⟩
  | cons layer rest ih =>
    have hlayer := p.isBehind_placeColumn layer hx hy hshapes fun code h =>
      le_foldl_max (f := fun c => (p.sizeOf c).1) h
    have hwidth : (0 : Rat) ≤ ((layer.map fun c => (p.sizeOf c).1).foldl max 0 : Nat) :=
      Nat.cast_nonneg _
    rw [placeColumns]
    refine ih ?_ ?_ (hbottom.trans (Fraction.le_larger_left _ _)) hlayer
    · simp only [gap]
      linarith
    · linarith

lemma isBehind_placeRows (p : Plan) {x y right bottom : Rat} {shapes : Keyed Box}
    (layers : List (List String)) (hx : X ≤ x) (hy : Y ≤ y) (hright : X ≤ right)
    (hbottom : Y ≤ bottom) (hshapes : shapes.All (Box.IsBehind X Y)) :
    (p.placeRows x y right bottom shapes layers).1.All (Box.IsBehind X Y) ∧
      X ≤ (p.placeRows x y right bottom shapes layers).2.1 ∧
      Y ≤ (p.placeRows x y right bottom shapes layers).2.2 := by
  induction layers generalizing y right bottom shapes with
  | nil => exact ⟨hshapes, hright, hbottom⟩
  | cons layer rest ih =>
    have hlayer := p.isBehind_placeRow layer hx hy hshapes fun code h =>
      le_foldl_max (f := fun c => (p.sizeOf c).2) h
    have hheight : (0 : Rat) ≤ ((layer.map fun c => (p.sizeOf c).2).foldl max 0 : Nat) :=
      Nat.cast_nonneg _
    rw [placeRows]
    refine ih ?_ (hright.trans (Fraction.le_larger_left _ _)) ?_ hlayer
    · simp only [gap]
      linarith
    · linarith

/-- Elements in layers lie behind their corner. -/
lemma isBehind_arrange (p : Plan) {x y : Rat} {shapes : Keyed Box} (codes : List String)
    (hx : X ≤ x) (hy : Y ≤ y) (hshapes : shapes.All (Box.IsBehind X Y)) :
    (p.arrange x y shapes codes).1.All (Box.IsBehind X Y) ∧
      X ≤ (p.arrange x y shapes codes).2.1 ∧ Y ≤ (p.arrange x y shapes codes).2.2 := by
  unfold arrange
  split
  · exact p.isBehind_placeColumns _ hx hy hx hy hshapes
  · exact p.isBehind_placeRows _ hx hy hx hy hshapes

lemma isBehind_arrangeIn (p : Plan) {x y : Rat} (right bottom : Rat) (codes : List String)
    (hx : X ≤ x) (hy : Y ≤ y) (hl : l.IsBehind X Y) :
    (p.arrangeIn x y l right bottom codes).1.IsBehind X Y ∧
      right ≤ (p.arrangeIn x y l right bottom codes).2.1 ∧
      bottom ≤ (p.arrangeIn x y l right bottom codes).2.2 := by
  unfold arrangeIn
  split
  · exact ⟨hl, le_rfl, le_rfl⟩
  · exact ⟨⟨(p.isBehind_arrange codes hx hy hl.shapes).1, hl.containers⟩,
      Fraction.le_larger_left _ _, Fraction.le_larger_left _ _⟩

/-- The border of a container. -/
lemma isBehind_border {b : Box} {code path : String} (hl : l.IsBehind X Y)
    (hb : b.IsBehind X Y ∧ 12 ≤ b.width ∧ 12 ≤ b.height) :
    Layout.IsBehind X Y ⟨if l.shapes.contains code then l.shapes else l.shapes.insert code b,
      l.containers.insert path b⟩ where
  shapes := by
    simp only
    split
    · exact hl.shapes
    · exact hl.shapes.insert hb.1
  containers := hl.containers.insert hb

mutual

theorem isBehind_placeContainer (p : Plan) {x0 y0 : Rat} {l : Layout} (hx0 : X ≤ x0)
    (hy0 : Y ≤ y0) (hl : l.IsBehind X Y) : (c : Folder ContainerHead) →
    (p.placeContainer x0 y0 l c).1.IsBehind X Y ∧ X ≤ (p.placeContainer x0 y0 l c).2.1 ∧
      Y ≤ (p.placeContainer x0 y0 l c).2.2
  | .node head path members inner => by
    have hx : X ≤ x0 + padding := by
      simp only [padding]
      linarith
    have hstereotypes : (0 : Rat) ≤ (14 * head.stereotypes.length : Nat) := Nat.cast_nonneg _
    have hy : Y ≤ y0 + padding + (14 * head.stereotypes.length : Nat) := by
      simp only [padding]
      linarith
    have hname : (120 : Rat) ≤ (max 120 (textWidth head.name + 60) : Nat) := by
      exact_mod_cast le_max_left _ _
    rw [placeContainer]
    have hmembers := p.isBehind_arrangeIn (x0 + (max 120 (textWidth head.name + 60) : Nat))
      (y0 + padding + (14 * head.stereotypes.length : Nat)) members hx hy hl
    generalize p.arrangeIn (x0 + padding) (y0 + padding + (14 * head.stereotypes.length : Nat)) l
      (x0 + (max 120 (textWidth head.name + 60) : Nat))
      (y0 + padding + (14 * head.stereotypes.length : Nat)) members = placed at hmembers ⊢
    obtain ⟨l₁, right, bottom⟩ := placed
    obtain ⟨hl₁, hright, hbottom⟩ := hmembers
    have hinner := isBehind_placeContainers p right bottom hx
      (y := if y0 + padding + (14 * head.stereotypes.length : Nat) < bottom then bottom + padding
        else y0 + padding + (14 * head.stereotypes.length : Nat))
      (by
        split
        · simp only [padding] at hbottom hy ⊢
          linarith
        · exact hy) hl₁ inner
    obtain ⟨hl₂, hright', hbottom'⟩ := hinner
    -- the border is behind the corner, and what it holds keeps it wide and high enough
    simp only [padding, Box.right, Box.bottom] at hright hbottom hright' hbottom' ⊢
    refine ⟨isBehind_border hl₂ ⟨⟨hx0, hy0, ?_, ?_⟩, ?_, ?_⟩, ?_, ?_⟩ <;> linarith

theorem isBehind_placeContainers (p : Plan) {x y : Rat} (right bottom : Rat) {l : Layout}
    (hx : X ≤ x) (hy : Y ≤ y) (hl : l.IsBehind X Y) : (cs : List (Folder ContainerHead)) →
    (p.placeContainers x y right bottom l cs).1.IsBehind X Y ∧
      right ≤ (p.placeContainers x y right bottom l cs).2.1 ∧
      bottom ≤ (p.placeContainers x y right bottom l cs).2.2
  | [] => ⟨hl, le_rfl, le_rfl⟩
  | c :: rest => by
    obtain ⟨hl₁, hr, hb⟩ := isBehind_placeContainer p hx hy hl c
    have hgap : (0 : Rat) ≤ smallGap := by simp [smallGap]
    rw [placeContainers]
    obtain ⟨hl₂, hright, hbottom⟩ := isBehind_placeContainers p
      (Fraction.larger right (p.placeContainer x y l c).2.1)
      (Fraction.larger bottom (p.placeContainer x y l c).2.2)
      (x := if p.leftToRight then (p.placeContainer x y l c).2.1 + smallGap else x)
      (y := if p.leftToRight then y else (p.placeContainer x y l c).2.2 + smallGap)
      (by split <;> linarith) (by split <;> linarith) hl₁ rest
    exact ⟨hl₂, (Fraction.le_larger_left _ _).trans hright,
      (Fraction.le_larger_left _ _).trans hbottom⟩

end

lemma isBehind_placeTop (p : Plan) {x y : Rat} (cs : List (Folder ContainerHead)) (hx : X ≤ x)
    (hy : Y ≤ y) (hl : l.IsBehind X Y) : (p.placeTop x y l cs).IsBehind X Y := by
  induction cs generalizing x y l with
  | nil => exact hl
  | cons c rest ih =>
    obtain ⟨hl₁, hr, hb⟩ := p.isBehind_placeContainer hx hy hl c
    have hgap : (0 : Rat) ≤ gap := by simp [gap]
    rw [placeTop]
    refine ih ?_ ?_ hl₁
    · split <;> linarith
    · split <;> linarith

end Plan

/-! ### Ports -/

variable {X Y : Rat}

/-- Ports reach over the border of their container by half their size. -/
lemma isBehind_portPlace (kind : ElementKind) {b : Box} (number : Nat)
    (hb : b.IsBehind X Y ∧ 12 ≤ b.width ∧ 12 ≤ b.height) :
    (portPlace kind b number).IsBehind (X - 6) (Y - 6) := by
  obtain ⟨hbehind, hwidth, hheight⟩ := hb
  have hx := hbehind.left
  have hy := hbehind.top
  have hoffset : (0 : Rat) ≤ 30 * number := by positivity
  have halong : ∀ {q start stop : Rat}, q ≤ start → start + 12 ≤ stop →
      q ≤ Fraction.smaller (start + 30 * number) (stop - 12) := by
    intro q start stop hstart hstop
    exact Fraction.le_smaller (by linarith) (by linarith)
  have hright : b.x + 12 ≤ b.right := by
    unfold Box.right
    linarith
  have hbottom : b.y + 12 ≤ b.bottom := by
    unfold Box.bottom
    linarith
  unfold portPlace
  dsimp only
  split
  · refine ⟨by simpa using hx, halong (by linarith) hbottom, ?_, ?_⟩ <;> norm_num
  · refine ⟨?_, halong (by linarith) hbottom, ?_, ?_⟩
    · simp only
      linarith
    · norm_num
    · norm_num
  · refine ⟨halong (by linarith) hright, by simpa using hy, ?_, ?_⟩ <;> norm_num

lemma isBehind_placePorts (before : List Element) {l : Layout} (es : List Element)
    (hshapes : l.shapes.All (Box.IsBehind (X - 6) (Y - 6)))
    (hcontainers : l.containers.All fun b => b.IsBehind X Y ∧ 12 ≤ b.width ∧ 12 ≤ b.height) :
    (placePorts before l es).shapes.All (Box.IsBehind (X - 6) (Y - 6)) ∧
      (placePorts before l es).containers.All (Box.IsBehind X Y) := by
  induction es generalizing before l with
  | nil => exact ⟨hshapes, hcontainers.imp fun _ h => h.1⟩
  | cons e rest ih =>
    rw [placePorts]
    split
    · exact ih _ hshapes hcontainers
    · next container hcontainer =>
      have hbox : container.IsBehind X Y ∧ 12 ≤ container.width ∧ 12 ≤ container.height := by
        split at hcontainer
        · obtain ⟨path, -, hpath⟩ := Option.bind_eq_some_iff.1 hcontainer
          exact hcontainers path container hpath
        · cases hcontainer
      exact ih _ (hshapes.insert (isBehind_portPlace _ _ hbox)) hcontainers

namespace Diagram

open Sketch

variable {parent : String} {P : String → Geometry → Prop}

/-- The layout lies behind its corner, but for the halves of ports. -/
theorem isBehind_layout (d : Diagram) (dialect : Dialect) (x y : Rat) :
    (d.layout dialect x y).shapes.All (Box.IsBehind (x - 6) (y - 6)) ∧
      (d.layout dialect x y).containers.All (Box.IsBehind x y) := by
  have hports : ∀ {l : Layout}, l.IsBehind x y →
      (placePorts [] l d.elements.values).shapes.All (Box.IsBehind (x - 6) (y - 6)) ∧
        (placePorts [] l d.elements.values).containers.All (Box.IsBehind x y) := by
    intro l hl
    refine isBehind_placePorts [] d.elements.values (hl.shapes.imp fun b hb => ?_) hl.containers
    exact hb.mono (by linarith) (by linarith)
  have hempty : Layout.IsBehind x y {} := ⟨Keyed.all_empty, Keyed.all_empty⟩
  have hgap : (0 : Rat) ≤ Plan.gap := by simp [Plan.gap]
  unfold layout
  dsimp only
  refine hports ?_
  split
  · exact Plan.isBehind_placeTop _ _ le_rfl le_rfl hempty
  · obtain ⟨hshapes, hright, hbottom⟩ := (d.plan dialect).isBehind_arrange
      (d.elements.keys.filter fun code => !(Folder.allMembers d.containers).contains code)
      (le_refl x) (le_refl y) Keyed.all_empty
    refine Plan.isBehind_placeTop _ _ ?_ ?_ ⟨hshapes, Keyed.all_empty⟩
    · split <;> linarith
    · split <;> linarith

lemma lays_drawContainers {places : Keyed Box} (cells : Keyed String)
    (cs : List (Folder ContainerHead)) (hplaces : places.All fun b => ∀ style : Style,
      P style.render
        { x := .ratio b.x, y := .ratio b.y, width := .ratio b.width, height := .ratio b.height }) :
    (drawContainers places cells cs).Lays parent P := by
  induction cs generalizing cells with
  | nil => exact lays_pure _
  | cons c rest ih =>
    unfold drawContainers
    split
    · next b hb => exact Lays.bind (lays_boxed (hplaces _ b hb _)) fun _ => ih _
    · exact ih _

lemma lays_drawElements {places : Keyed Box} (cells : Keyed String) (es : List Element)
    (hplaces : places.All fun b => ∀ style : Style, P style.render
      { x := .ratio b.x, y := .ratio b.y, width := .ratio b.width, height := .ratio b.height }) :
    (drawElements places cells es).Lays parent P := by
  induction es generalizing cells with
  | nil => exact lays_pure _
  | cons e rest ih =>
    unfold drawElements
    split
    · next b hb =>
      split at hb
      · cases hb
      · exact Lays.bind (lays_boxed (hplaces _ b hb _)) fun _ => ih _
    · exact ih _

lemma le_originX (d : Diagram) : 40 ≤ d.originX := by
  unfold originX
  split <;> norm_num

lemma le_originY (d : Diagram) : 40 ≤ d.originY := by
  unfold originY
  split <;> split <;> norm_num

lemma lays_sketch (d : Diagram) (dialect : Dialect) : (d.sketch dialect).Lays parent Relation.IsPlaced := by
  obtain ⟨hshapes, hcontainers⟩ := d.isBehind_layout dialect d.originX d.originY
  have hx := d.le_originX
  have hy := d.le_originY
  have hbody : (do
      let cells ← drawContainers (d.layout dialect d.originX d.originY).containers Keyed.empty
        (Folder.walkAll d.containers)
      let cells ← drawElements (d.layout dialect d.originX d.originY).shapes cells d.elements.values
      let cells ← Relation.drawNotes (d.layout dialect d.originX d.originY).shapes d.links
        (40, Box.lowest 40 (d.layout dialect d.originX d.originY).shapes + 40) cells d.notes
      Relation.drawLinks cells d.links : Sketch Unit).Lays parent Relation.IsPlaced := by
    refine Lays.bind (lays_drawContainers _ _ (hcontainers.imp fun b hb style =>
      Relation.isPlaced_box (by linarith [hb.left]) (by linarith [hb.top]) style)) fun cells => ?_
    refine Lays.bind (lays_drawElements _ _ (hshapes.imp fun b hb style =>
      Relation.isPlaced_box (by linarith [hb.left]) (by linarith [hb.top]) style)) fun cells => ?_
    refine Lays.bind (Relation.lays_drawNotes _ cells hshapes (by linarith) ?_ (by norm_num)) fun cells => ?_
    · intro hleft
      simp only [originX, hleft, Relation.noteWidth, Relation.noteGap]
      norm_num
    · exact Relation.lays_drawLinks _ _
  unfold sketch
  cases d.shownTitle with
  | none => exact hbody
  | some t =>
    have htitle : ∀ width, Relation.IsPlaced titleStyle.render
        { x := .ratio 40, y := .ratio 20, width := .ratio width, height := .ratio 30 } := fun width =>
      Relation.isPlaced_box (b := ⟨40, 20, width, 30⟩) (by norm_num) (by norm_num) titleStyle
    exact Lays.bind (lays_boxed (htitle _)) fun _ => hbody

/-- Where the shapes of a use case or component diagram lie. -/
theorem laid_draw (d : Diagram) (dialect : Dialect) (parent : String) :
    Cell.Laid parent Relation.IsPlaced (d.draw dialect parent) :=
  (d.lays_sketch dialect).laid

end Diagram
end Description
end UmlDraw
