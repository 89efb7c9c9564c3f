/-
# Where the shapes of a class diagram lie

The layout starts at a corner and goes on to the right and downwards.  The corner leaves enough room
on the left for notes there, but not above: a note above an entity may stick out.

A grid, a package and a list of packages each stand below all that was placed before.  So the boxes
in the table of entities stay apart whatever is placed next, also where an entity that is listed in
several packages is taken from one place to another.

The main statements are

* `Layout.isBehind_placePackage`: a package with its contents lies behind its corner;
* `Diagram.laid_draw`: where the shapes of a drawing lie;
* `Layout.settled_placeGrid` and `Layout.settled_placePackage`: what is placed stands below the
  rest, and all of it stands apart;
* `Diagram.apart_read`: two entities that are drawn have the room of a column between them;
* `Diagram.laidOut_draw`: packages and entities are drawn where the layout places them.
-/
import UmlDraw.Class.Drawing
import UmlDraw.Proofs.Class.Shown
import UmlDraw.Proofs.Drawing.Laid
import UmlDraw.Proofs.Layout.Layering

namespace UmlDraw
namespace Class
namespace Layout

variable {l : Layout} {X Y : Rat}

/-- The boxes of a layout lie behind a corner; those of frames may have any size. -/
structure IsBehind (X Y : Rat) (l : Layout) : Prop where
  entities : l.entities.All (Box.IsBehind X Y)
  frames : l.frames.All fun b => X ≤ b.x ∧ Y ≤ b.y

lemma isBehind_empty : IsBehind X Y {} :=
  ⟨Keyed.all_empty, Keyed.all_empty⟩

/-- A cursor is behind a corner. -/
structure Cursor.IsBehind (X Y : Rat) (c : Cursor) : Prop where
  x : X ≤ c.x
  y : Y ≤ c.y
  rowHeight : 0 ≤ c.rowHeight

lemma Cursor.IsBehind.next {x0 : Rat} {c : Cursor} (h : c.IsBehind X Y) (hx0 : X ≤ x0) (s : Size) :
    (c.next x0 s).IsBehind X Y := by
  have hx := h.x
  have hy := h.y
  have hrow : 0 ≤ Fraction.larger c.rowHeight s.height :=
    h.rowHeight.trans (Fraction.le_larger_left _ _)
  have hwidth : (0 : Rat) ≤ s.width := Nat.cast_nonneg _
  unfold Cursor.next
  dsimp only
  split
  · refine ⟨hx0, ?_, le_rfl⟩
    simp only [rowGap]
    linarith
  · refine ⟨?_, hy, hrow⟩
    simp only [columnGap]
    linarith

/-- A grid lies behind its corner, and so does what is below it. -/
lemma isBehind_grid (sizes : Keyed Size) {x0 : Rat} {c : Cursor} {places : Keyed Box} (codes : List String)
    (hx0 : X ≤ x0) (hc : c.IsBehind X Y) (hplaces : places.All (Box.IsBehind X Y)) :
    (grid sizes x0 c places codes).1.All (Box.IsBehind X Y) ∧
      Y ≤ (grid sizes x0 c places codes).2 := by
  induction codes generalizing c places with
  | nil =>
    have hy := hc.y
    have hrow := hc.rowHeight
    refine ⟨hplaces, ?_⟩
    simp only [grid]
    linarith
  | cons code rest ih =>
    rw [grid]
    split
    · exact ih hc hplaces
    · next s _ =>
      refine ih (hc.next hx0 s) (hplaces.insert ⟨hc.x, hc.y, ?_, ?_⟩)
      · exact Nat.cast_nonneg s.width
      · exact Nat.cast_nonneg s.height

lemma isBehind_placeGrid (groups : List (List String)) (sizes : Keyed Size) {x0 y0 : Rat}
    (codes : List String) (hx0 : X ≤ x0) (hy0 : Y ≤ y0) (hl : l.IsBehind X Y) :
    (placeGrid groups sizes x0 y0 l codes).1.IsBehind X Y ∧
      Y ≤ (placeGrid groups sizes x0 y0 l codes).2 := by
  have hgrid := isBehind_grid sizes (c := ⟨0, x0, y0, 0⟩) (gather groups codes) hx0
    ⟨hx0, hy0, le_rfl⟩ hl.entities
  exact ⟨⟨hgrid.1, hl.frames⟩, hgrid.2⟩

mutual

theorem isBehind_placePackage (groups : List (List String)) (sizes : Keyed Size) {x0 y0 : Rat}
    {l : Layout} (hx0 : X ≤ x0) (hy0 : Y ≤ y0) (hl : l.IsBehind X Y) : (p : Folder PackageHead) →
    (placePackage groups sizes x0 y0 l p).1.IsBehind X Y ∧
      Y ≤ (placePackage groups sizes x0 y0 l p).2.2
  | .node head path members inner => by
    have hx : X ≤ x0 + padding := by
      simp only [padding]
      linarith
    have hy : Y ≤ y0 + packageHeader := by
      simp only [packageHeader]
      linarith
    have hmembers : ∀ codes : List String, (if codes.isEmpty then (l, y0 + packageHeader)
        else placeGrid groups sizes (x0 + padding) (y0 + packageHeader) l codes).1.IsBehind X Y ∧
        Y ≤ (if codes.isEmpty then (l, y0 + packageHeader)
          else placeGrid groups sizes (x0 + padding) (y0 + packageHeader) l codes).2 := by
      intro codes
      split
      · exact ⟨hl, hy⟩
      · exact isBehind_placeGrid groups sizes codes hx hy hl
    rw [placePackage]
    have hmembers := hmembers (members.filter sizes.contains)
    generalize (if (members.filter sizes.contains).isEmpty then (l, y0 + packageHeader)
      else placeGrid groups sizes (x0 + padding) (y0 + packageHeader) l
        (members.filter sizes.contains)) = placed at hmembers ⊢
    obtain ⟨l₁, y₁⟩ := placed
    have hinner := isBehind_placePackages groups sizes
      (l₁.rightOf (x0 + (max 160 (textWidth head.name) : Nat) + 2 * padding)
        (members.filter sizes.contains)) hx hmembers.2 hmembers.1 inner
    refine ⟨⟨hinner.1.entities, hinner.1.frames.insert ⟨hx0, hy0⟩⟩, ?_⟩
    have hbottom := hinner.2
    simp only [padding] at hbottom ⊢
    linarith

theorem isBehind_placePackages (groups : List (List String)) (sizes : Keyed Size) {x y : Rat}
    (right : Rat) {l : Layout} (hx : X ≤ x) (hy : Y ≤ y) (hl : l.IsBehind X Y) : (ps : List (Folder PackageHead)) →
    (placePackages groups sizes x y right l ps).1.IsBehind X Y ∧
      Y ≤ (placePackages groups sizes x y right l ps).2.2
  | [] => ⟨hl, hy⟩
  | p :: rest => by
    have hy' : Y ≤ y + padding := by
      simp only [padding]
      linarith
    have hfirst := isBehind_placePackage groups sizes hx hy' hl p
    rw [placePackages]
    exact isBehind_placePackages groups sizes _ hx hfirst.2 hfirst.1 rest

end

lemma isBehind_placeTop (groups : List (List String)) (sizes : Keyed Size) {x y : Rat}
    (ps : List (Folder PackageHead)) (hx : X ≤ x) (hy : Y ≤ y) (hl : l.IsBehind X Y) :
    (placeTop groups sizes x y l ps).1.IsBehind X Y ∧ Y ≤ (placeTop groups sizes x y l ps).2 := by
  induction ps generalizing y l with
  | nil => exact ⟨hl, hy⟩
  | cons p rest ih =>
    have hfirst := isBehind_placePackage groups sizes hx hy hl p
    rw [placeTop]
    refine ih ?_ hfirst.1
    have hbottom := hfirst.2
    simp only [rowGap]
    linarith

end Layout

namespace Diagram

open Sketch

variable {parent : String} {P : String → Geometry → Prop}

/-- The layout lies behind its corner. -/
lemma isBehind_layout (d : Diagram) (x y : Rat) :
    (d.layout x y).1.IsBehind x y ∧ y ≤ (d.layout x y).2 := by
  unfold layout
  dsimp only
  split
  · exact Layout.isBehind_placeTop _ _ _ le_rfl le_rfl Layout.isBehind_empty
  · have hroots := Layout.isBehind_placeGrid d.groups d.sizes
      ((d.drawn.map Entity.code).filter fun code => !(Folder.allMembers d.packages).contains code)
      (le_refl x) (le_refl y) Layout.isBehind_empty
    refine Layout.isBehind_placeTop _ _ _ le_rfl ?_ hroots.1
    have hbottom := hroots.2
    simp only [Layout.rowGap]
    linarith

lemma lays_drawFrames {frames : Keyed Box} (ps : List (Folder PackageHead))
    (hframes : frames.All fun b => ∀ style : Style, P style.render
      { x := .ratio b.x, y := .ratio b.y, width := .ratio b.width, height := .ratio b.height }) :
    (drawFrames frames ps).Lays parent P := by
  induction ps with
  | nil => exact lays_pure _
  | cons p rest ih =>
    unfold drawFrames
    split
    · next b hb => exact Lays.bind (lays_boxed (hframes _ b hb _)) fun _ => ih
    · exact ih

lemma puts_drawRows_exact (owner : String) (width : Rat) (y : Nat) (rs : List Row) :
    (drawRows owner width y rs).Puts parent fun _ cs =>
      ∀ c ∈ cs, c.IsExact ∧ c.parent = owner := by
  induction rs generalizing y with
  | nil => exact Puts.pure (by simp)
  | cons r rest ih =>
    unfold drawRows
    have hpart : ∀ (text : String) (x w : Number) (h : Nat), x.IsExact → w.IsExact →
        (part owner text r.style x (.int y) w (.int h)).Puts parent fun _ cs =>
          ∀ c ∈ cs, c.IsExact ∧ c.parent = owner := by
      intro text x w h hx hw
      exact puts_part_exact _ _ _ (by simp [hx, hw])
    split
    · refine (hpart _ _ _ _ (by simp) (by simp)).bind fun _ cs h => (ih _).imp fun _ cs' h' => ?_
      exact List.forall_mem_append.2 ⟨h, h'⟩
    · refine (hpart _ _ _ _ (by simp) (by simp)).bind fun _ cs h => ?_
      refine (hpart _ _ _ _ (by simp) (by simp)).bind fun _ cs₁ h₁ => (ih _).imp fun _ cs' h' => ?_
      exact List.forall_mem_append.2 ⟨h, List.forall_mem_append.2 ⟨h₁, h'⟩⟩

lemma lays_drawEntity (d : Diagram) (e : Entity) {b : Box}
    (h : ∀ style : Style, P style.render
      { x := .ratio b.x, y := .ratio b.y, width := .ratio b.width, height := .ratio b.height }) :
    (d.drawEntity e b).Lays parent P := by
  unfold drawEntity
  split
  · exact lays_boxed (h _)
  · exact LaysAnd.bind_inner (by simp) (h _) fun id => (puts_drawRows_exact id _ _ _).returns

lemma lays_drawEntities (d : Diagram) {places : Keyed Box} (cells : Keyed String)
    (es : List Entity) (hplaces : places.All fun b => ∀ style : Style, P style.render
      { x := .ratio b.x, y := .ratio b.y, width := .ratio b.width, height := .ratio b.height }) :
    (drawEntities d places cells es).Lays parent P := by
  induction es generalizing cells with
  | nil => exact lays_pure _
  | cons e rest ih =>
    unfold drawEntities
    split
    · next b hb => exact Lays.bind (d.lays_drawEntity e (hplaces _ b hb)) fun _ => ih _
    · exact ih _

lemma lays_drawUpward (cells : Keyed String) (id : String) (dashed : Bool) (codes : List String) :
    (drawUpward cells id dashed codes).Lays parent P := by
  induction codes with
  | nil => exact lays_pure _
  | cons code rest ih =>
    unfold drawUpward
    split
    · exact Lays.bind (lays_connect _ _ _ _) fun _ => ih
    · exact ih

lemma lays_drawInheritance (cells : Keyed String) (es : List Entity) :
    (drawInheritance cells es).Lays parent P := by
  induction es with
  | nil => exact lays_pure _
  | cons e rest ih =>
    unfold drawInheritance
    split
    · refine Lays.bind (lays_drawUpward _ _ _ _) fun _ => ?_
      exact Lays.bind (lays_drawUpward _ _ _ _) fun _ => ih
    · exact ih

lemma originX_nonneg (d : Diagram) : 0 ≤ d.originX := by
  unfold originX
  split <;> norm_num

lemma originY_nonneg (d : Diagram) : 0 ≤ d.originY := by
  unfold originY
  split <;> split <;> norm_num

lemma lays_sketch (d : Diagram) : d.sketch.Lays parent Relation.IsPlaced := by
  obtain ⟨hlayout, -⟩ := d.isBehind_layout d.originX d.originY
  have hx := d.originX_nonneg
  have hy := d.originY_nonneg
  have hbody : (do
      drawFrames (d.layout d.originX d.originY).1.frames (Folder.walkAll d.packages)
      let cells ← drawEntities d (d.layout d.originX d.originY).1.entities Keyed.empty d.drawn
      let cells ← Relation.drawNotes (d.layout d.originX d.originY).1.entities d.links
        (40, (d.layout d.originX d.originY).2) cells d.notes
      drawInheritance cells d.drawn
      Relation.drawLinks cells d.links : Sketch Unit).Lays parent Relation.IsPlaced := by
    refine Lays.bind (lays_drawFrames _ (hlayout.frames.imp fun b hb style =>
      Relation.isPlaced_box (hx.trans hb.1) (hy.trans hb.2) style)) fun _ => ?_
    refine Lays.bind (lays_drawEntities d _ _ (hlayout.entities.imp fun b hb style =>
      Relation.isPlaced_box (hx.trans hb.left) (hy.trans hb.top) style)) fun cells => ?_
    refine Lays.bind (Relation.lays_drawNotes _ cells hlayout.entities hx ?_ (by norm_num)) fun cells => ?_
    · intro hleft
      simp only [originX, hleft, Relation.noteWidth, Relation.noteGap]
      norm_num
    · refine Lays.bind (lays_drawInheritance _ _) fun _ => ?_
      exact Relation.lays_drawLinks _ _
  unfold sketch
  cases d.shownTitle with
  | none => exact hbody
  | some t =>
    have htitle : ∀ width, Relation.IsPlaced titleStyle.render
        { x := .ratio 40, y := .ratio 20, width := .ratio width, height := .ratio 30 } := fun width =>
      Relation.isPlaced_box (b := ⟨40, 20, width, 30⟩) (by norm_num) (by norm_num) titleStyle
    exact Lays.bind (lays_boxed (htitle _)) fun _ => hbody

/-- Where the shapes of a class diagram lie. -/
theorem laid_draw (d : Diagram) (parent : String) :
    Cell.Laid parent Relation.IsPlaced (d.draw parent) :=
  (lays_sketch d).laid

end Diagram
end Class
end UmlDraw

/-! ## Boxes that stay apart -/

namespace UmlDraw

namespace Box

/-- Two boxes have some room between them, side by side or one above the other. -/
def Apart (gap : Rat) (b b' : Box) : Prop :=
  b.right + gap ≤ b'.x ∨ b'.right + gap ≤ b.x ∨ b.bottom + gap ≤ b'.y ∨ b'.bottom + gap ≤ b.y

lemma Apart.symm {gap : Rat} {b b' : Box} (h : b.Apart gap b') : b'.Apart gap b := by
  unfold Apart at *
  tauto

end Box

namespace Keyed

variable {α : Type} {R : α → α → Prop} {t : Keyed α}

/-- The values of any two keys are in a relation. -/
def Related (R : α → α → Prop) (t : Keyed α) : Prop :=
  ∀ key key' a a', key ≠ key' → t.get? key = some a → t.get? key' = some a' → R a a'

lemma related_empty : Related R empty :=
  fun _ _ _ _ _ h => nomatch h

lemma Related.insert (h : t.Related R) (hsymm : ∀ a a', R a a' → R a' a) {key : String} {a : α}
    (ha : t.All fun b => R b a) : (t.insert key a).Related R := by
  intro first second b b' hne hb hb'
  rw [get?_insert] at hb hb'
  split at hb <;> split at hb'
  · next hfirst hsecond => exact absurd (hfirst.trans hsecond.symm) hne
  · rw [← Option.some.inj hb]
    exact hsymm _ _ (ha _ _ hb')
  · rw [← Option.some.inj hb']
    exact ha _ _ hb
  · exact h _ _ _ _ hne hb hb'

end Keyed

namespace Class
namespace Layout

variable {groups : List (List String)} {sizes : Keyed Size} {l : Layout} {y y' : Rat}

/-! ### Grids

The rows of a grid go downwards.  A box is out of the way of what comes next if it ends above the
row of the cursor, or if it stands in this row on the left and is no higher than the row. -/

/-- Nothing that is placed at the cursor or behind it comes near a box. -/
def Cursor.IsPast (c : Cursor) (b : Box) : Prop :=
  b.bottom + columnGap ≤ c.y ∨ b.right + columnGap ≤ c.x ∧ b.bottom ≤ c.y + c.rowHeight

variable {c : Cursor} {b : Box}

lemma Cursor.IsPast.apart (h : c.IsPast b) (width height : Rat) :
    b.Apart columnGap ⟨c.x, c.y, width, height⟩ := by
  rcases h with habove | ⟨hleft, -⟩
  · exact .inr (.inr (.inl habove))
  · exact .inl hleft

lemma Cursor.IsPast.next (h : c.IsPast b) (hrow : 0 ≤ c.rowHeight) (x0 : Rat) (s : Size) :
    (c.next x0 s).IsPast b := by
  have hheight := Fraction.le_larger_left c.rowHeight s.height
  have hwidth : (0 : Rat) ≤ s.width := Nat.cast_nonneg _
  unfold IsPast Cursor.next at *
  simp only [columnGap, rowGap] at *
  split
  · left
    rcases h with h | h <;> linarith
  · refine h.imp_right fun h => ⟨?_, ?_⟩ <;> linarith

/-- The box at the cursor is out of the way of the next one. -/
lemma Cursor.isPast_next (c : Cursor) (x0 : Rat) (s : Size) :
    (c.next x0 s).IsPast ⟨c.x, c.y, s.width, s.height⟩ := by
  have hheight := Fraction.le_larger_right c.rowHeight s.height
  unfold IsPast Cursor.next Box.right Box.bottom
  simp only [columnGap, rowGap]
  split
  · left
    dsimp only
    linarith
  · right
    dsimp only
    exact ⟨le_rfl, by linarith⟩

lemma Cursor.rowHeight_next (hrow : 0 ≤ c.rowHeight) (x0 : Rat) (s : Size) :
    0 ≤ (c.next x0 s).rowHeight ∧ c.y ≤ (c.next x0 s).y := by
  have hheight := Fraction.le_larger_left c.rowHeight s.height
  unfold Cursor.next
  simp only [rowGap]
  split
  · exact ⟨le_rfl, by dsimp only; linarith⟩
  · exact ⟨hrow.trans hheight, le_rfl⟩

/-- Each entity that has a place has the size that was measured. -/
def Measured (sizes : Keyed Size) (places : Keyed Box) : Prop :=
  ∀ code b, places.get? code = some b →
    ∃ s, sizes.get? code = some s ∧ b.width = s.width ∧ b.height = s.height

lemma Measured.insert {places : Keyed Box} (h : Measured sizes places) {code : String} {s : Size}
    (hs : sizes.get? code = some s) (x y : Rat) :
    Measured sizes (places.insert code ⟨x, y, s.width, s.height⟩) := by
  intro other b hb
  rw [Keyed.get?_insert] at hb
  split at hb
  · next hother =>
    rw [hother, ← Option.some.inj hb]
    exact ⟨s, hs, rfl, rfl⟩
  · exact h other b hb

/-- A grid keeps what is there and itself apart, if all that is there is out of its way. -/
lemma related_grid (x0 : Rat) {places : Keyed Box} (codes : List String) (hrow : 0 ≤ c.rowHeight)
    (hpast : places.All c.IsPast) (hapart : places.Related (Box.Apart columnGap))
    (hmeasured : Measured sizes places) :
    (grid sizes x0 c places codes).1.Related (Box.Apart columnGap) ∧
      Measured sizes (grid sizes x0 c places codes).1 ∧
      ((grid sizes x0 c places codes).1.All fun b => b.bottom ≤ (grid sizes x0 c places codes).2) ∧
      c.y ≤ (grid sizes x0 c places codes).2 := by
  induction codes generalizing c places with
  | nil =>
    simp only [grid]
    refine ⟨hapart, hmeasured, hpast.imp fun b hb => ?_, by linarith⟩
    rcases hb with hb | hb
    · simp only [columnGap] at hb
      linarith
    · exact hb.2
  | cons code rest ih =>
    rw [grid]
    split
    · exact ih hrow hpast hapart hmeasured
    · next s hs =>
      obtain ⟨hrow', hy⟩ := Cursor.rowHeight_next hrow x0 s
      have hpast' : (places.insert code ⟨c.x, c.y, s.width, s.height⟩).All (c.next x0 s).IsPast :=
        (hpast.imp fun b hb => hb.next hrow x0 s).insert (c.isPast_next x0 s)
      have hapart' : (places.insert code ⟨c.x, c.y, s.width, s.height⟩).Related
          (Box.Apart columnGap) :=
        hapart.insert (fun _ _ => Box.Apart.symm) (hpast.imp fun b hb => hb.apart s.width s.height)
      obtain ⟨hapart, hmeasured, hbottom, hy'⟩ :=
        ih hrow' hpast' hapart' (hmeasured.insert hs c.x c.y)
      exact ⟨hapart, hmeasured, hbottom, hy.trans hy'⟩

/-! ### Packages

A package starts the padding below all that was placed before it, and its grid starts the height of
its head below that; together this is the room of a column. -/

/-- All that is placed ends the padding above a line, and the entities stand apart. -/
structure Settled (sizes : Keyed Size) (y : Rat) (l : Layout) : Prop where
  apart : l.entities.Related (Box.Apart columnGap)
  measured : Measured sizes l.entities
  entities : l.entities.All fun b => b.bottom + padding ≤ y
  frames : l.frames.All fun b => 0 ≤ b.height ∧ b.bottom + padding ≤ y

lemma settled_empty (sizes : Keyed Size) (y : Rat) : Settled sizes y {} :=
  ⟨Keyed.related_empty, (fun _ _ h => nomatch h), Keyed.all_empty, Keyed.all_empty⟩

lemma Settled.mono (h : Settled sizes y l) (hy : y ≤ y') : Settled sizes y' l where
  apart := h.apart
  measured := h.measured
  entities := h.entities.imp fun _ hb => hb.trans hy
  frames := h.frames.imp fun _ hb => ⟨hb.1, hb.2.trans hy⟩

lemma Settled.frame (h : Settled sizes y l) {b : Box} (hheight : 0 ≤ b.height)
    (hbottom : b.bottom + padding ≤ y) (path : String) :
    Settled sizes y { l with frames := l.frames.insert path b } :=
  ⟨h.apart, h.measured, h.entities, h.frames.insert ⟨hheight, hbottom⟩⟩

lemma settled_placeGrid (h : Settled sizes y l) (hy : y + packageHeader ≤ y')
    (groups : List (List String)) (x0 : Rat) (codes : List String) :
    Settled sizes ((placeGrid groups sizes x0 y' l codes).2 + padding)
        (placeGrid groups sizes x0 y' l codes).1 ∧
      y' ≤ (placeGrid groups sizes x0 y' l codes).2 := by
  have hpast : l.entities.All (Cursor.IsPast ⟨0, x0, y', 0⟩) := h.entities.imp fun b hb => by
    left
    simp only [columnGap, padding, packageHeader] at *
    linarith
  obtain ⟨hapart, hmeasured, hbottom, hgrid⟩ :=
    related_grid x0 (gather groups codes) le_rfl hpast h.apart h.measured
  refine ⟨⟨hapart, hmeasured, hbottom.imp fun b hb => ?_, h.frames.imp fun b hb => ⟨hb.1, ?_⟩⟩,
    hgrid⟩
  · exact add_le_add_left hb _
  · have hgrid : y' ≤ (placeGrid groups sizes x0 y' l codes).2 := hgrid
    have hb := hb.2
    simp only [padding, packageHeader] at *
    linarith

/-- The grid of a package, which is left out if nothing in the package is drawn. -/
def placeMembers (groups : List (List String)) (sizes : Keyed Size) (x y : Rat) (l : Layout)
    (members : List String) : Layout × Rat :=
  let codes := members.filter sizes.contains
  if codes.isEmpty then (l, y) else placeGrid groups sizes x y l codes

/-- All that is placed in the frame of a package: the grid, and below it the packages inside. -/
def placeInside (groups : List (List String)) (sizes : Keyed Size) (x0 y0 : Rat) (l : Layout)
    (p : Folder PackageHead) : Layout × Rat × Rat :=
  let x := x0 + padding
  let least := x0 + (max 160 (textWidth p.head.name) : Nat) + 2 * padding
  let (l, y) := placeMembers groups sizes x (y0 + packageHeader) l p.members
  placePackages groups sizes x y (l.rightOf least (p.members.filter sizes.contains)) l p.inner

/-- The box of the frame around what is placed in it. -/
def frameBox (x0 y0 : Rat) (inside : Layout × Rat × Rat) : Box :=
  ⟨x0, y0, inside.2.1 - x0, inside.2.2 + padding - y0⟩

/-- The frame of a package comes last. -/
lemma placePackage_eq (groups : List (List String)) (sizes : Keyed Size) (x0 y0 : Rat) (l : Layout)
    (p : Folder PackageHead) :
    placePackage groups sizes x0 y0 l p =
      ({ (placeInside groups sizes x0 y0 l p).1 with
          frames := (placeInside groups sizes x0 y0 l p).1.frames.insert p.path
            (frameBox x0 y0 (placeInside groups sizes x0 y0 l p)) },
        (placeInside groups sizes x0 y0 l p).2.1,
        (placeInside groups sizes x0 y0 l p).2.2 + padding) := by
  cases p
  rw [placePackage]
  rfl

lemma settled_placeMembers (h : Settled sizes y l) (groups : List (List String)) (x : Rat)
    (members : List String) :
    Settled sizes ((placeMembers groups sizes x (y + packageHeader) l members).2 + padding)
        (placeMembers groups sizes x (y + packageHeader) l members).1 ∧
      y + packageHeader ≤ (placeMembers groups sizes x (y + packageHeader) l members).2 := by
  unfold placeMembers
  dsimp only
  split
  · refine ⟨h.mono ?_, le_rfl⟩
    simp only [packageHeader, padding]
    linarith
  · exact settled_placeGrid h le_rfl groups x _

mutual

/-- A package stands below all that was placed before it. -/
theorem settled_placePackage (groups : List (List String)) (x0 : Rat) {y0 : Rat} {l : Layout}
    (h : Settled sizes y0 l) : (p : Folder PackageHead) →
    Settled sizes ((placePackage groups sizes x0 y0 l p).2.2 + padding)
        (placePackage groups sizes x0 y0 l p).1 ∧
      y0 + packageHeader ≤ (placePackage groups sizes x0 y0 l p).2.2
  | .node head path members inner => by
    obtain ⟨hmembers, hy⟩ := settled_placeMembers h groups (x0 + padding) members
    obtain ⟨hinner, hy'⟩ := settled_placePackages groups (x0 + padding)
      ((placeMembers groups sizes (x0 + padding) (y0 + packageHeader) l members).1.rightOf
        (x0 + (max 160 (textWidth head.name) : Nat) + 2 * padding)
        (members.filter sizes.contains)) hmembers inner
    have hinside : y0 + packageHeader ≤
        (placeInside groups sizes x0 y0 l (.node head path members inner)).2.2 := hy.trans hy'
    rw [placePackage_eq]
    dsimp only
    simp only [padding, packageHeader] at hinside ⊢
    refine ⟨(hinner.mono ?_).frame ?_ ?_ path, by linarith⟩
    · exact le_add_of_nonneg_right (by norm_num)
    · simp only [frameBox, padding]
      linarith
    · exact (congrArg (· + padding) (add_sub_cancel y0 _)).le

/-- Each of some packages stands below all that was placed before it. -/
theorem settled_placePackages (groups : List (List String)) (x right : Rat) {y : Rat} {l : Layout}
    (h : Settled sizes (y + padding) l) : (ps : List (Folder PackageHead)) →
    Settled sizes ((placePackages groups sizes x y right l ps).2.2 + padding)
        (placePackages groups sizes x y right l ps).1 ∧
      y ≤ (placePackages groups sizes x y right l ps).2.2
  | [] => ⟨h, le_rfl⟩
  | p :: rest => by
    obtain ⟨hfirst, hy⟩ := settled_placePackage groups x h p
    obtain ⟨hrest, hy'⟩ := settled_placePackages groups x
      (Fraction.larger right ((placePackage groups sizes x (y + padding) l p).2.1 + padding))
      hfirst rest
    rw [placePackages]
    refine ⟨hrest, le_trans ?_ hy'⟩
    simp only [padding, packageHeader] at hy ⊢
    linarith

end

lemma settled_placeTop (groups : List (List String)) (x : Rat) (h : Settled sizes y l)
    (ps : List (Folder PackageHead)) :
    Settled sizes (placeTop groups sizes x y l ps).2 (placeTop groups sizes x y l ps).1 := by
  induction ps generalizing y l with
  | nil => exact h
  | cons p rest ih =>
    rw [placeTop]
    refine ih ((settled_placePackage groups x h p).1.mono ?_)
    simp only [rowGap, padding]
    linarith

end Layout

namespace Diagram

variable {d : Diagram}

/-- The entities outside of packages stand above the packages. -/
lemma settled_roots (d : Diagram) (x y : Rat) (roots : List String) :
    Layout.Settled d.sizes
      (if roots.isEmpty then (({} : Layout), y)
        else ((Layout.placeGrid d.groups d.sizes x y {} roots).1,
          (Layout.placeGrid d.groups d.sizes x y {} roots).2 + Layout.rowGap)).2
      (if roots.isEmpty then (({} : Layout), y)
        else ((Layout.placeGrid d.groups d.sizes x y {} roots).1,
          (Layout.placeGrid d.groups d.sizes x y {} roots).2 + Layout.rowGap)).1 := by
  split
  · exact Layout.settled_empty _ _
  · have hempty := Layout.settled_empty d.sizes (y - Layout.packageHeader)
    refine (Layout.settled_placeGrid hempty ?_ d.groups x roots).1.mono ?_
    · rw [sub_add_cancel]
    · simp only [Layout.padding, Layout.rowGap]
      linarith

lemma settled_layout (d : Diagram) (x y : Rat) :
    Layout.Settled d.sizes (d.layout x y).2 (d.layout x y).1 := by
  unfold layout
  exact Layout.settled_placeTop _ _ (d.settled_roots x y _) _

lemma get?_sizes (hd : OwnCodes d.entities) {e : Entity} (he : e ∈ d.drawn) :
    d.sizes.get? e.code = some (d.size e) := by
  refine Keyed.get?_enter_of_nodup ?_ (List.mem_map_of_mem (f := fun e => (e.code, d.size e)) he)
  rw [List.map_map]
  exact nodup_map_code_drawn hd

/-- Two entities that are drawn have their own boxes, of the sizes that were measured, and there is
the room of a column between them, side by side or one above the other. -/
theorem apart_read {text : String} (hread : read text = .ok d) (x y : Rat) {e e' : Entity}
    (he : e ∈ d.drawn) (he' : e' ∈ d.drawn) (hne : e ≠ e') :
    ∃ b b', (d.layout x y).1.entities.get? e.code = some b ∧
      (d.layout x y).1.entities.get? e'.code = some b' ∧
      b.width = (d.size e).width ∧ b.height = (d.size e).height ∧
      b'.width = (d.size e').width ∧ b'.height = (d.size e').height ∧
      b.Apart Layout.columnGap b' := by
  have hd := ownCodes_read hread
  have hsettled := d.settled_layout x y
  have hplace : ∀ e ∈ d.drawn, ∃ b, (d.layout x y).1.entities.get? e.code = some b ∧
      b.width = (d.size e).width ∧ b.height = (d.size e).height := by
    intro e he
    obtain ⟨b, hb⟩ := Keyed.mem_keys_iff.1 (mem_keys_entities_layout he x y)
    obtain ⟨s, hs, hsize⟩ := hsettled.measured _ _ hb
    rw [get?_sizes hd he] at hs
    obtain rfl := Option.some.inj hs
    exact ⟨b, hb, hsize⟩
  obtain ⟨b, hb, hwidth, hheight⟩ := hplace e he
  obtain ⟨b', hb', hwidth', hheight'⟩ := hplace e' he'
  have hcode : e.code ≠ e'.code := fun hcode =>
    hne (List.inj_on_of_nodup_map (nodup_map_code_drawn hd) he he' hcode)
  exact ⟨b, b', hb, hb', hwidth, hheight, hwidth', hheight',
    hsettled.apart _ _ _ _ hcode hb hb'⟩

/-- An entity in two packages, a package that is opened again, a package in a package, entities that
stand together, and more of them than a row of the grid has. -/
theorem apart_read_packages :
    let text := "class R\ntogether \x7b\nclass S\nclass T\n\x7d\npackage P \x7b\nclass A\n" ++
      "package Q \x7b\nclass B\n\x7d\nclass C\nclass D\nclass E\nclass F\n\x7d\n" ++
      "package P \x7b\nclass G\nclass A\n\x7d"
    ∃ d e e', Diagram.read text = .ok d ∧ d.drawn.length = 10 ∧ e ∈ d.drawn ∧ e' ∈ d.drawn ∧
      e.code = "A" ∧ e'.code = "G" ∧ e ≠ e' ∧
      ∃ b b', (d.layout 40 40).1.entities.get? "A" = some b ∧
        (d.layout 40 40).1.entities.get? "G" = some b' ∧ b.Apart 60 b' := by
  intro text
  obtain ⟨d, hread, hd⟩ := Fault.exists_of_any (by decide +kernel :
    (Diagram.read text).toOption.any (fun d => d.drawn.length == 10 &&
      d.drawn.any fun e => e.code == "A" && d.drawn.any fun e' => e'.code == "G") = true)
  simp only [Bool.and_eq_true, beq_iff_eq, List.any_eq_true] at hd
  obtain ⟨hlength, e, he, hcode, e', he', hcode'⟩ := hd
  have hne : e ≠ e' := by
    rintro rfl
    exact absurd (hcode.symm.trans hcode') (by decide)
  obtain ⟨b, b', hb, hb', -, -, -, -, hapart⟩ := apart_read hread 40 40 he he' hne
  rw [hcode] at hb
  rw [hcode'] at hb'
  exact ⟨d, e, e', hread, hlength, he, he', hcode, hcode', hne, b, b', hb, hb', hapart⟩

/-! ### The boxes of a drawing

Each package has a cell in the frame that the layout has for its path, and each entity that is drawn
has one in the box for its code. -/

open Sketch

variable {parent : String}

/-- A cell lies in a box. -/
def LiesIn (c : Cell) (b : Box) : Prop :=
  c.geometry = some
    { x := .ratio b.x, y := .ratio b.y, width := .ratio b.width, height := .ratio b.height }

lemma puts_boxed_liesIn (value : String) (style : Style) (b : Box) :
    (boxed value style b).Puts parent fun _ cs => ∃ c : Cell, cs = [c] ∧ LiesIn c b := by
  unfold boxed shape
  refine (puts_put _).imp ?_
  rintro id cs rfl
  exact ⟨_, rfl, rfl⟩

lemma puts_drawFrames_liesIn {frames : Keyed Box} {ps : List (Folder PackageHead)}
    (hframes : ∀ p ∈ ps, p.path ∈ frames.keys) :
    (drawFrames frames ps).Puts parent fun _ cs =>
      List.Forall₂ (fun p c => ∃ b, frames.get? p.path = some b ∧ LiesIn c b) ps cs := by
  induction ps with
  | nil => exact Puts.pure .nil
  | cons p rest ih =>
    obtain ⟨hp, hrest⟩ := List.forall_mem_cons.1 hframes
    obtain ⟨b, hb⟩ := Keyed.mem_keys_iff.1 hp
    simp only [drawFrames, hb]
    refine (puts_boxed_liesIn _ _ b).bind ?_
    rintro _ _ ⟨c, rfl, hc⟩
    exact (ih hrest).imp fun _ _ h => .cons ⟨b, hb, hc⟩ h

lemma puts_drawEntity_liesIn (d : Diagram) (e : Entity) (b : Box) :
    (d.drawEntity e b).Puts parent fun _ cs => ∃ c : Cluster, cs = c.cells ∧ LiesIn c.core b := by
  unfold drawEntity
  split
  · refine (puts_boxed_liesIn _ _ b).imp ?_
    rintro _ _ ⟨core, rfl, hcore⟩
    exact ⟨⟨core, []⟩, rfl, hcore⟩
  · refine (puts_boxed_liesIn _ _ b).bind ?_
    rintro id _ ⟨core, rfl, hcore⟩
    refine (puts_drawRows id _ _ _).bind fun _ cs _ => Puts.pure ?_
    rw [List.append_nil]
    exact ⟨⟨core, cs⟩, rfl, hcore⟩

lemma puts_drawEntities_liesIn {places : Keyed Box} {es : List Entity}
    (hplaces : ∀ e ∈ es, e.code ∈ places.keys) (cells : Keyed String) :
    (drawEntities d places cells es).Puts parent fun _ cs =>
      ∃ clusters : List Cluster, cs = clusters.flatMap Cluster.cells ∧
        List.Forall₂ (fun e c => ∃ b, places.get? e.code = some b ∧ LiesIn c.core b)
          es clusters := by
  induction es generalizing cells with
  | nil => exact Puts.pure ⟨[], rfl, .nil⟩
  | cons e rest ih =>
    obtain ⟨he, hrest⟩ := List.forall_mem_cons.1 hplaces
    obtain ⟨b, hb⟩ := Keyed.mem_keys_iff.1 he
    simp only [drawEntities, hb]
    refine (d.puts_drawEntity_liesIn e b).bind ?_
    rintro _ _ ⟨c, rfl, hc⟩
    refine (ih hrest _).imp ?_
    rintro _ _ ⟨clusters, rfl, hclusters⟩
    exact ⟨c :: clusters, rfl, .cons ⟨b, hb, hc⟩ hclusters⟩

/-- The cells begin with those of all packages and then of all entities that are drawn; they lie
where the layout places them. -/
def LaidOut (d : Diagram) (l : Layout) (cs : List Cell) : Prop :=
  ∃ (frames : List Cell) (entities : List Cluster) (rest : List Cell),
    cs = frames ++ (entities.flatMap Cluster.cells ++ rest) ∧
    List.Forall₂ (fun p c => ∃ b, l.frames.get? p.path = some b ∧ LiesIn c b)
      (Folder.walkAll d.packages) frames ∧
    List.Forall₂ (fun e c => ∃ b, l.entities.get? e.code = some b ∧ LiesIn c.core b)
      d.drawn entities

/-- Behind the title a drawing is laid out. -/
theorem laidOut_draw (d : Diagram) (parent : String) :
    ∃ title cs, d.draw parent = title ++ cs ∧ d.LaidOut (d.layout d.originX d.originY).1 cs := by
  have hbody : (do
      drawFrames (d.layout d.originX d.originY).1.frames (Folder.walkAll d.packages)
      let cells ← drawEntities d (d.layout d.originX d.originY).1.entities Keyed.empty d.drawn
      let cells ← Relation.drawNotes (d.layout d.originX d.originY).1.entities d.links
        (40, (d.layout d.originX d.originY).2) cells d.notes
      drawInheritance cells d.drawn
      Relation.drawLinks cells d.links : Sketch Unit).Puts parent fun _ cs =>
        d.LaidOut (d.layout d.originX d.originY).1 cs := by
    refine (puts_drawFrames_liesIn fun p hp => mem_keys_frames_layout hp _ _).bind ?_
    intro _ frames hframes
    refine (puts_drawEntities_liesIn (fun e he => mem_keys_entities_layout he _ _) _).bind ?_
    rintro cells _ ⟨entities, rfl, hentities⟩
    refine (Relation.puts_drawNotes _ _ _ _ _).bind fun cells notes _ => ?_
    have hascents : (drawInheritance cells d.drawn).Puts parent fun _ cs =>
        True ∧ Cell.Laid parent (fun _ _ => True) cs := lays_drawInheritance cells d.drawn
    refine hascents.bind fun _ ascents _ => ?_
    refine (Relation.puts_drawLinks cells d.links).imp fun _ links _ => ?_
    exact ⟨frames, entities, notes ++ (ascents ++ links), rfl, hframes, hentities⟩
  have hsketch : d.sketch.Puts parent fun _ cs => ∃ title cs', cs = title ++ cs' ∧
      d.LaidOut (d.layout d.originX d.originY).1 cs' := by
    unfold sketch
    cases d.shownTitle with
    | none => exact hbody.imp fun _ cs h => ⟨[], cs, rfl, h⟩
    | some t => exact (puts_boxed_liesIn _ _ _).bind fun _ title _ =>
        hbody.imp fun _ cs h => ⟨title, cs, rfl, h⟩
  obtain ⟨_, hcells⟩ := hsketch.cells
  exact hcells

end Diagram
end Class
end UmlDraw
