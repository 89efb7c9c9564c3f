/-
# Diagrams with links are drawn without loose ends

Class, use case, component and state diagrams share the pieces that draw notes and links.

The main statements are

* `Relation.adds_drawLinks` and `Relation.leaves_drawNotes`: the shared pieces;
* `Class.Diagram.connected_draw`, `Description.Diagram.connected_draw` and
  `State.Diagram.connected_draw`: the drawings.
-/
import UmlDraw.Class.Drawing
import UmlDraw.Description.Drawing
import UmlDraw.Proofs.Drawing.Canvas
import UmlDraw.Relation.Drawing
import UmlDraw.State.Drawing

namespace UmlDraw

/-! ## Notes and links

The pieces that several dialects share.  A table of cells that holds shapes only keeps that when a
note enters it, so links and the connectors of notes join shapes. -/

lemma Sketch.drawsShape_boxed (value : String) (style : Style) (b : Box) (k : Canvas) :
    (boxed value style b).DrawsShape k :=
  drawsShape_shape _ _ _ _ _ _ k

namespace Relation

open Sketch

lemma adds_drawEndLabel {k : Canvas} {edgeId : String} (hid : Cell.IsId k.cells edgeId)
    (text : Option String) (position : Rat) (style : Style) :
    (drawEndLabel edgeId text position style).Adds k := by
  unfold drawEndLabel
  cases text.filter fun t => !t.isEmpty with
  | none => exact adds_pure _ k
  | some t =>
    refine (leaves_put (fun _ _ => rfl) ⟨.inr hid, .inl ⟨rfl, rfl⟩⟩).bind ?_
    intro _ k' _ _
    exact adds_pure _ k'

lemma adds_drawLink {k : Canvas} {cells : Keyed String} (hcells : k.Shows cells) (l : Link) :
    (drawLink cells l).Adds k := by
  unfold drawLink
  split
  · next source target hsource htarget =>
    refine (leaves_connect (hcells _ _ hsource) (hcells _ _ htarget) _ _).bind ?_
    intro id k₁ _ hid
    refine (adds_drawEndLabel hid _ _ _).bind fun _ k₂ h₂ _ => ?_
    have hid₂ := hid.mono h₂.cells
    refine (adds_drawEndLabel hid₂ _ _ _).bind fun _ k₃ h₃ _ => ?_
    have hid₃ := hid₂.mono h₃.cells
    refine (adds_drawEndLabel hid₃ _ _ _).bind fun _ k₄ h₄ _ => ?_
    exact adds_drawEndLabel (hid₃.mono h₄.cells) _ _ _
  · exact adds_pure _ k

lemma adds_drawLinks {k : Canvas} {cells : Keyed String} (hcells : k.Shows cells)
    (ls : List Link) : (drawLinks cells ls).Adds k := by
  induction ls generalizing k with
  | nil => exact adds_pure _ k
  | cons l rest ih => exact (adds_drawLink hcells l).bind fun _ _ hk _ => ih (hcells.grows hk)

lemma leaves_drawNotes {k : Canvas} {cells : Keyed String} (hcells : k.Shows cells)
    (places : Keyed Box) (links : List Link) (free : Rat × Rat) (ns : List Note) :
    (drawNotes places links free cells ns).Leaves k fun cells' k' => k'.Shows cells' := by
  induction ns generalizing k cells free with
  | nil => exact Leaves.pure hcells
  | cons n rest ih =>
    unfold drawNotes
    refine (drawsShape_boxed _ _ _ k).bind ?_
    intro id k₁ h₁ hid
    have hold := hcells.grows h₁
    -- a note with a target is joined to it in the table that may hold the note itself
    have hlink : ∀ free cells' target, k₁.Shows cells' →
        (noteShape n).bind cells'.get? = some target →
        (do let _ ← connect "" noteConnectorStyle id target
            drawNotes places links free cells' rest).Leaves k₁ fun cells'' k' =>
          k'.Shows cells'' := by
      intro free cells' target hcells' htarget
      obtain ⟨code, -, hcode⟩ := Option.bind_eq_some_iff.1 htarget
      refine (leaves_connect hid (hcells' _ _ hcode) _ _).bind ?_
      intro _ k₂ h₂ _
      exact ih (hcells'.grows h₂) free
    cases n.target.free? with
    | none =>
      dsimp only
      cases htarget : (noteShape n).bind cells.get? with
      | none => exact ih hold _
      | some target => exact hlink _ _ _ hold htarget
    | some code =>
      have hnew : k₁.Shows (cells.insert code id) := hold.insert hid
      dsimp only
      cases htarget : (noteShape n).bind (cells.insert code id).get? with
      | none => exact ih hnew _
      | some target => exact hlink _ _ _ hnew htarget

end Relation

/-! ## Class diagrams

The table of cells holds the shapes of entities, also where an entity is drawn again under the same
code, and the shapes of free notes. -/

namespace Class
namespace Diagram

open Sketch

lemma adds_drawFrames (frames : Keyed Box) (ps : List (Folder PackageHead)) (k : Canvas) :
    (drawFrames frames ps).Adds k := by
  induction ps generalizing k with
  | nil => exact adds_pure _ k
  | cons p rest ih =>
    unfold drawFrames
    split
    · exact (drawsShape_boxed _ _ _ k).bind fun _ k' _ _ => ih k'
    · exact ih k

lemma adds_drawRows {k : Canvas} {owner : String} (howner : k.IsShape owner) (width : Rat) (y : Nat)
    (rs : List Row) : (drawRows owner width y rs).Adds k := by
  induction rs generalizing k y with
  | nil => exact adds_pure _ k
  | cons r rest ih =>
    unfold drawRows
    split
    · exact (adds_part howner _ _ _ _ _ _).bind fun _ _ hk _ => ih (howner.grows hk) _
    · refine (adds_part howner _ _ _ _ _ _).bind fun _ _ h₁ _ => ?_
      refine (adds_part (howner.grows h₁) _ _ _ _ _ _).bind fun _ _ h₂ _ => ?_
      exact ih (howner.grows (h₁.trans h₂)) _

lemma drawsShape_drawEntity (d : Diagram) (e : Entity) (b : Box) (k : Canvas) :
    (d.drawEntity e b).DrawsShape k := by
  unfold drawEntity
  split
  · exact drawsShape_boxed _ _ _ k
  · refine (drawsShape_boxed _ _ _ k).bind fun id k₁ _ hid => ?_
    refine (adds_drawRows hid _ _ _).bind fun _ k₂ h₂ _ => ?_
    exact Leaves.pure (hid.grows h₂)

lemma leaves_drawEntities {k : Canvas} {cells : Keyed String} (hcells : k.Shows cells)
    (d : Diagram) (places : Keyed Box) (es : List Entity) :
    (drawEntities d places cells es).Leaves k fun cells' k' => k'.Shows cells' := by
  induction es generalizing k cells with
  | nil => exact Leaves.pure hcells
  | cons e rest ih =>
    unfold drawEntities
    split
    · refine (drawsShape_drawEntity d e _ k).bind fun id k' hk hid => ?_
      exact ih ((hcells.grows hk).insert hid)
    · exact ih hcells

lemma adds_drawUpward {k : Canvas} {cells : Keyed String} {id : String} (hcells : k.Shows cells)
    (hid : k.IsShape id) (dashed : Bool) (codes : List String) :
    (drawUpward cells id dashed codes).Adds k := by
  induction codes generalizing k with
  | nil => exact adds_pure _ k
  | cons code rest ih =>
    unfold drawUpward
    split
    · next target htarget =>
      refine (leaves_connect hid (hcells _ _ htarget) _ _).bind fun _ _ hk _ => ?_
      exact ih (hcells.grows hk) (hid.grows hk)
    · exact ih hcells hid

lemma adds_drawInheritance {k : Canvas} {cells : Keyed String} (hcells : k.Shows cells)
    (es : List Entity) : (drawInheritance cells es).Adds k := by
  induction es generalizing k with
  | nil => exact adds_pure _ k
  | cons e rest ih =>
    unfold drawInheritance
    split
    · next id hid =>
      have hid := hcells _ _ hid
      refine (adds_drawUpward hcells hid _ _).bind fun _ k₁ h₁ _ => ?_
      refine (adds_drawUpward (hcells.grows h₁) (hid.grows h₁) _ _).bind fun _ k₂ h₂ _ => ?_
      exact ih (hcells.grows (h₁.trans h₂))
    · exact ih hcells

lemma adds_sketch (d : Diagram) (k : Canvas) : d.sketch.Adds k := by
  have hbody : ∀ (layout : Layout) (bottom : Rat) (k' : Canvas), (do
      drawFrames layout.frames (Folder.walkAll d.packages)
      let cells ← drawEntities d layout.entities Keyed.empty d.drawn
      let cells ← Relation.drawNotes layout.entities d.links (40, bottom) cells d.notes
      drawInheritance cells d.drawn
      Relation.drawLinks cells d.links : Sketch Unit).Adds k' := by
    intro layout bottom k'
    refine (adds_drawFrames _ _ k').bind fun _ k₁ _ _ => ?_
    refine (leaves_drawEntities (Canvas.shows_empty k₁) d _ _).bind fun cells k₂ _ hcells => ?_
    refine (Relation.leaves_drawNotes hcells _ _ _ _).bind fun cells k₃ _ hcells => ?_
    refine (adds_drawInheritance hcells _).bind fun _ k₄ h₄ _ => ?_
    exact Relation.adds_drawLinks (hcells.grows h₄) _
  unfold sketch
  -- what follows a title does not look at it
  cases d.shownTitle with
  | none => exact hbody _ _ k
  | some t => exact (drawsShape_boxed _ _ _ k).bind fun _ k' _ _ => hbody _ _ k'

/-- Each connector of a class diagram joins two shapes of the drawing. -/
theorem connected_draw (d : Diagram) (parent : String) :
    Cell.Connected parent (d.draw parent) :=
  (adds_sketch d _).connected

end Diagram
end Class

/-! ## Use case and component diagrams

A container and an element with one code share an entry of the table of cells, so links end at the
shape of the container. -/

namespace Description
namespace Diagram

open Sketch

lemma leaves_drawContainers {k : Canvas} {cells : Keyed String} (hcells : k.Shows cells)
    (places : Keyed Box) (cs : List (Folder ContainerHead)) :
    (drawContainers places cells cs).Leaves k fun cells' k' => k'.Shows cells' := by
  induction cs generalizing k cells with
  | nil => exact Leaves.pure hcells
  | cons c rest ih =>
    unfold drawContainers
    split
    · refine (drawsShape_boxed _ _ _ k).bind fun id k' hk hid => ?_
      have hold := hcells.grows hk
      dsimp only
      split
      · exact ih hold
      · exact ih (hold.insert hid)
    · exact ih hcells

lemma leaves_drawElements {k : Canvas} {cells : Keyed String} (hcells : k.Shows cells)
    (places : Keyed Box) (es : List Element) :
    (drawElements places cells es).Leaves k fun cells' k' => k'.Shows cells' := by
  induction es generalizing k cells with
  | nil => exact Leaves.pure hcells
  | cons e rest ih =>
    unfold drawElements
    split
    · refine (drawsShape_boxed _ _ _ k).bind fun id k' hk hid => ?_
      exact ih ((hcells.grows hk).insert hid)
    · exact ih hcells

lemma adds_sketch (d : Diagram) (dialect : Dialect) (k : Canvas) : (d.sketch dialect).Adds k := by
  have hbody : ∀ (layout : Layout) (bottom : Rat) (k' : Canvas), (do
      let cells ← drawContainers layout.containers Keyed.empty (Folder.walkAll d.containers)
      let cells ← drawElements layout.shapes cells d.elements.values
      let cells ← Relation.drawNotes layout.shapes d.links (40, bottom) cells d.notes
      Relation.drawLinks cells d.links : Sketch Unit).Adds k' := by
    intro layout bottom k'
    refine (leaves_drawContainers (Canvas.shows_empty k') _ _).bind fun cells k₁ _ hcells => ?_
    refine (leaves_drawElements hcells _ _).bind fun cells k₂ _ hcells => ?_
    refine (Relation.leaves_drawNotes hcells _ _ _ _).bind fun cells k₃ _ hcells => ?_
    exact Relation.adds_drawLinks hcells _
  unfold sketch
  cases d.shownTitle with
  | none => exact hbody _ _ k
  | some t => exact (drawsShape_boxed _ _ _ k).bind fun _ k' _ _ => hbody _ _ k'

/-- Each link of a use case or component diagram joins two shapes of the drawing. -/
theorem connected_draw (d : Diagram) (dialect : Dialect) (parent : String) :
    Cell.Connected parent (d.draw dialect parent) :=
  (adds_sketch d dialect _).connected

end Diagram
end Description

/-! ## State diagrams

An element that stands in two regions is drawn twice.  The table of cells holds the shape that was
drawn last, and transitions and notes end there. -/

namespace State

open Sketch

lemma adds_drawSeparators (b : Box) (ys : List Rat) (k : Canvas) :
    (drawSeparators b ys).Adds k := by
  induction ys generalizing k with
  | nil => exact adds_pure _ k
  | cons y rest ih =>
    unfold drawSeparators
    exact (adds_line _ _ _ _ _ k).bind fun _ k' _ _ => ih k'

lemma leaves_drawComposites {k : Canvas} {cells : Keyed String} (hcells : k.Shows cells)
    (ps : List Placed) :
    (drawComposites cells ps).Leaves k fun cells' k' => k'.Shows cells' := by
  induction ps generalizing k cells with
  | nil => exact Leaves.pure hcells
  | cons p rest ih =>
    unfold drawComposites
    split
    · refine (drawsShape_boxed _ _ _ k).bind fun id k₁ h₁ hid => ?_
      refine (adds_drawSeparators _ _ k₁).bind fun _ k₂ h₂ _ => ?_
      exact ih (((hcells.grows h₁).insert hid).grows h₂)
    · exact ih hcells

lemma drawsShape_drawState (e : Element) (b : Box) (k : Canvas) : (drawState e b).DrawsShape k := by
  unfold drawState
  split
  · exact drawsShape_boxed _ _ _ k
  · refine (drawsShape_boxed _ _ _ k).bind fun id k₁ _ hid => ?_
    refine (adds_part hid _ _ _ _ _ _).bind fun _ k₂ h₂ _ => ?_
    exact Leaves.pure (hid.grows h₂)

lemma drawsShape_drawLeaf (e : Element) (b : Box) (k : Canvas) : (drawLeaf e b).DrawsShape k := by
  unfold drawLeaf
  cases e.kind with
  | final =>
    refine (drawsShape_boxed _ _ _ k).bind fun id k₁ _ hid => ?_
    -- the inner disc has a cell of its own, but the outer one is the shape
    refine (drawsShape_boxed _ _ _ k₁).bind fun _ k₂ h₂ _ => ?_
    exact Leaves.pure (hid.grows h₂)
  | state => exact drawsShape_drawState e b k
  | _ => exact drawsShape_boxed _ _ _ k

lemma leaves_drawLeaves {k : Canvas} {cells : Keyed String} (hcells : k.Shows cells)
    (ps : List Placed) :
    (drawLeaves cells ps).Leaves k fun cells' k' => k'.Shows cells' := by
  induction ps generalizing k cells with
  | nil => exact Leaves.pure hcells
  | cons p rest ih =>
    unfold drawLeaves
    split
    · exact ih hcells
    · refine (drawsShape_drawLeaf _ _ k).bind fun id k' hk hid => ?_
      exact ih ((hcells.grows hk).insert hid)

lemma adds_drawNotes {k : Canvas} {cells : Keyed String} (hcells : k.Shows cells)
    (places : Keyed Box) (transitions : List Transition) (free : Rat × Rat) (ns : List Note) :
    (drawNotes places transitions cells free ns).Adds k := by
  induction ns generalizing k free with
  | nil => exact adds_pure _ k
  | cons n rest ih =>
    unfold drawNotes
    refine (drawsShape_boxed _ _ _ k).bind fun id k₁ h₁ hid => ?_
    have hold := hcells.grows h₁
    dsimp only
    split
    · next target htarget =>
      obtain ⟨code, -, hcode⟩ := Option.bind_eq_some_iff.1 htarget
      refine (leaves_connect hid (hold _ _ hcode) _ _).bind fun _ k₂ h₂ _ => ?_
      exact ih (hold.grows h₂) _
    · exact ih hold _

lemma adds_drawTransitions {k : Canvas} {cells : Keyed String} (hcells : k.Shows cells)
    (ts : List Transition) : (drawTransitions cells ts).Adds k := by
  induction ts generalizing k with
  | nil => exact adds_pure _ k
  | cons t rest ih =>
    unfold drawTransitions
    split
    · next source target hsource htarget =>
      refine (leaves_connect (hcells _ _ hsource) (hcells _ _ htarget) _ _).bind ?_
      intro _ k' hk _
      exact ih (hcells.grows hk)
    · exact ih hcells

namespace Diagram

lemma adds_drawTitle (d : Diagram) (k : Canvas) : d.drawTitle.Adds k := by
  unfold drawTitle
  split
  · exact (drawsShape_boxed _ _ _ k).bind fun _ k' _ _ => adds_pure _ k'
  · exact adds_pure _ k

lemma adds_sketch (d : Diagram) (k : Canvas) : d.sketch.Adds k := by
  unfold sketch
  refine (adds_drawTitle d k).bind fun top k₁ _ _ => ?_
  refine (leaves_drawComposites (Canvas.shows_empty k₁) _).bind fun cells k₂ _ hcells => ?_
  refine (leaves_drawLeaves hcells _).bind fun cells k₃ _ hcells => ?_
  refine (adds_drawNotes hcells _ _ _ _).bind fun _ k₄ h₄ _ => ?_
  exact adds_drawTransitions (hcells.grows h₄) _

/-- Each transition of a state diagram joins two shapes of the drawing. -/
theorem connected_draw (d : Diagram) (parent : String) :
    Cell.Connected parent (d.draw parent) :=
  (adds_sketch d _).connected

end Diagram
end State
end UmlDraw
