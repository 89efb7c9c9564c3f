/-
# What a drawing of a class diagram shows

Every entity of a diagram has a place and is drawn there, unless it was removed.

The main statements are

* `Layout.places_placePackage`: what a package with its contents places;
* `Diagram.mem_keys_entities_layout` and `Diagram.mem_keys_frames_layout`: what has a place;
* `Diagram.shown_drawn_read`: the parts of a drawing.
-/
import UmlDraw.Class.Layout
import UmlDraw.Proofs.Class.Reader
import UmlDraw.Proofs.Data.Keyed
import UmlDraw.Proofs.Data.Outcome
import UmlDraw.Proofs.Drawing.Cluster
import UmlDraw.Proofs.Drawing.Relation
import UmlDraw.Proofs.Layout.Grouping

namespace UmlDraw

/-! ## Every entity has a place

What is placed stays placed.  An entity in packages is placed in each of them, and all others stand
in the grid at the top, so no entity that is drawn is left without a place; nor is the frame of a
package. -/

namespace Class
namespace Layout

variable {groups : List (List String)} {sizes : Keyed Size} {l l' l'' : Layout}
  {codes codes' paths paths' : List String}

/-- The second layout has all places of the first one, and places for those of the given codes that
have a size and for the given paths. -/
structure Places (sizes : Keyed Size) (l : Layout) (codes paths : List String) (l' : Layout) :
    Prop where
  entities : l.entities.Gains l'.entities (codes.filter sizes.contains)
  frames : l.frames.Gains l'.frames paths

lemma Places.refl (sizes : Keyed Size) (l : Layout) : Places sizes l [] [] l :=
  ⟨Keyed.Gains.refl _, Keyed.Gains.refl _⟩

lemma Places.trans (h : Places sizes l codes paths l') (h' : Places sizes l' codes' paths' l'') :
    Places sizes l (codes ++ codes') (paths ++ paths') l'' where
  entities := List.filter_append _ _ ▸ h.entities.trans h'.entities
  frames := h.frames.trans h'.frames

lemma Places.mono (h : Places sizes l codes paths l') (hcodes : codes' ⊆ codes)
    (hpaths : paths' ⊆ paths) : Places sizes l codes' paths' l' where
  entities := h.entities.mono (List.filter_subset _ hcodes)
  frames := h.frames.mono hpaths

/-- A package goes before the packages behind it. -/
lemma Places.cons {p : Folder PackageHead} {ps : List (Folder PackageHead)}
    (h : Places sizes l (Folder.allMembers [p]) ((Folder.walkAll [p]).map Folder.path) l')
    (h' : Places sizes l' (Folder.allMembers ps) ((Folder.walkAll ps).map Folder.path) l'') :
    Places sizes l (Folder.allMembers (p :: ps)) ((Folder.walkAll (p :: ps)).map Folder.path)
      l'' := by
  have hboth := h.trans h'
  rwa [← Folder.allMembers_append, ← List.map_append, ← Folder.walkAll_append] at hboth

lemma gains_grid {x0 : Rat} {c : Cursor} {places : Keyed Box} :
    places.Gains (grid sizes x0 c places codes).1 (codes.filter sizes.contains) := by
  induction codes generalizing c places with
  | nil => exact Keyed.Gains.refl _
  | cons first rest ih =>
    rw [grid]
    cases hsize : sizes.get? first with
    | none =>
      rw [List.filter_cons_of_neg (by simp [Keyed.contains, hsize])]
      exact ih
    | some s =>
      rw [List.filter_cons_of_pos (by simp [Keyed.contains, hsize])]
      exact (Keyed.gains_insert _ _ _).trans ih

lemma places_placeGrid (groups : List (List String)) (sizes : Keyed Size) (x0 y0 : Rat) (l : Layout)
    (codes : List String) : Places sizes l codes [] (placeGrid groups sizes x0 y0 l codes).1 where
  entities := gains_grid.mono (List.filter_subset _ fun _ h => mem_gather.2 h)
  frames := Keyed.Gains.refl _

/-- The grid of a package, which is left out if nothing in the package is drawn. -/
lemma places_members (groups : List (List String)) (sizes : Keyed Size) (x y : Rat) (l : Layout)
    (members : List String) :
    Places sizes l members [] (if (members.filter sizes.contains).isEmpty then (l, y)
      else placeGrid groups sizes x y l (members.filter sizes.contains)).1 := by
  split
  · next hempty =>
    refine ⟨?_, Keyed.Gains.refl _⟩
    rw [List.isEmpty_iff.1 hempty]
    exact Keyed.Gains.refl _
  · have hgrid := places_placeGrid groups sizes x y l (members.filter sizes.contains)
    refine ⟨hgrid.entities.mono ?_, hgrid.frames⟩
    simp only [List.filter_filter, Bool.and_self]
    exact List.Subset.refl _

lemma places_frame (sizes : Keyed Size) (l : Layout) (path : String) (b : Box) :
    Places sizes l [] [path] { l with frames := l.frames.insert path b } :=
  ⟨Keyed.Gains.refl _, Keyed.gains_insert _ _ _⟩

mutual

lemma places_placePackage (groups : List (List String)) (sizes : Keyed Size) (x0 y0 : Rat)
    (l : Layout) : (p : Folder PackageHead) →
    Places sizes l (Folder.allMembers [p]) ((Folder.walkAll [p]).map Folder.path)
      (placePackage groups sizes x0 y0 l p).1
  | .node head path members inner => by
    have hmembers := places_members groups sizes (x0 + padding) (y0 + packageHeader) l members
    rw [placePackage]
    generalize (if (members.filter sizes.contains).isEmpty then (l, y0 + packageHeader)
      else placeGrid groups sizes (x0 + padding) (y0 + packageHeader) l
        (members.filter sizes.contains)) = placed at hmembers ⊢
    obtain ⟨l₁, y₁⟩ := placed
    have hboth := hmembers.trans (places_placePackages groups sizes (x0 + padding) y₁
      (l₁.rightOf (x0 + (max 160 (textWidth head.name) : Nat) + 2 * padding)
        (members.filter sizes.contains)) l₁ inner)
    -- the frame comes last
    refine (hboth.trans (places_frame sizes _ path _)).mono ?_ ?_
    · simp [Folder.allMembers, Folder.walkAll_singleton, Folder.members, Folder.inner]
    · simp [Folder.walkAll_singleton, Folder.path, Folder.inner]

lemma places_placePackages (groups : List (List String)) (sizes : Keyed Size) (x y right : Rat)
    (l : Layout) : (ps : List (Folder PackageHead)) →
    Places sizes l (Folder.allMembers ps) ((Folder.walkAll ps).map Folder.path)
      (placePackages groups sizes x y right l ps).1
  | [] => Places.refl sizes l
  | p :: rest => by
    have hfirst := places_placePackage groups sizes x (y + padding) l p
    have hrest := places_placePackages groups sizes x
      (placePackage groups sizes x (y + padding) l p).2.2
      (Fraction.larger right ((placePackage groups sizes x (y + padding) l p).2.1 + padding))
      (placePackage groups sizes x (y + padding) l p).1 rest
    rw [placePackages]
    exact Places.cons hfirst hrest

end

lemma places_placeTop (groups : List (List String)) (sizes : Keyed Size) (x y : Rat) (l : Layout)
    (ps : List (Folder PackageHead)) :
    Places sizes l (Folder.allMembers ps) ((Folder.walkAll ps).map Folder.path)
      (placeTop groups sizes x y l ps).1 := by
  induction ps generalizing y l with
  | nil => exact Places.refl sizes l
  | cons p rest ih =>
    rw [placeTop]
    exact Places.cons (places_placePackage groups sizes x y l p) (ih _ _)

end Layout

namespace Diagram

variable {d : Diagram}

lemma mem_keys_sizes {code : String} :
    code ∈ d.sizes.keys ↔ code ∈ d.drawn.map Entity.code := by
  rw [sizes, Keyed.mem_keys_ofList, List.map_map]
  rfl

/-- What has a place: the entities at the top and in packages, and all packages. -/
lemma places_layout (d : Diagram) (x y : Rat) :
    Layout.Places d.sizes {} (d.drawn.map Entity.code) ((Folder.walkAll d.packages).map Folder.path)
      (d.layout x y).1 := by
  unfold layout
  dsimp only
  generalize hroots : (d.drawn.map Entity.code).filter
    (fun code => !(Folder.allMembers d.packages).contains code) = roots
  have hplaces : ∀ l y, Layout.Places d.sizes {} roots [] l →
      Layout.Places d.sizes {} (d.drawn.map Entity.code)
        ((Folder.walkAll d.packages).map Folder.path)
        (Layout.placeTop d.groups d.sizes x y l d.packages).1 := by
    intro l y htop
    have hall := htop.trans (Layout.places_placeTop d.groups d.sizes x y l d.packages)
    refine hall.mono (fun code h => ?_) (List.Subset.refl _)
    rw [List.mem_append, ← hroots, List.mem_filter]
    by_cases hpackaged : code ∈ Folder.allMembers d.packages
    · exact .inr hpackaged
    · exact .inl ⟨h, by simpa using hpackaged⟩
  split
  · next hempty =>
    rw [List.isEmpty_iff.1 hempty] at hplaces
    exact hplaces _ _ (Layout.Places.refl _ _)
  · exact hplaces _ _ (Layout.places_placeGrid _ _ _ _ _ _)

/-- Every entity that is drawn has a place. -/
theorem mem_keys_entities_layout {e : Entity} (he : e ∈ d.drawn) (x y : Rat) :
    e.code ∈ (d.layout x y).1.entities.keys := by
  have hcode : e.code ∈ d.drawn.map Entity.code := List.mem_map_of_mem he
  refine (d.places_layout x y).entities.new (List.mem_filter.2 ⟨hcode, ?_⟩)
  exact Keyed.contains_iff.2 (mem_keys_sizes.2 hcode)

/-- Every package has a place. -/
theorem mem_keys_frames_layout {p : Folder PackageHead} (hp : p ∈ Folder.walkAll d.packages)
    (x y : Rat) : p.path ∈ (d.layout x y).1.frames.keys :=
  (d.places_layout x y).frames.new (List.mem_map_of_mem hp)

end Diagram

/-! ## The parts of a drawing

The cells of a drawing are told part by part: the title, the frames of packages, the entities with
their rows, the notes, the connectors to what entities extend and implement, and the links.  An
entity is drawn unless its code was removed, and a link is drawn unless one of its ends is not.
A free note takes the place of an entity with its code as an end of connectors. -/


open Sketch

/-- The looks of the shapes that draw a row. -/
def Row.looks (r : Row) : List (String × Style) :=
  (r.text, r.style) :: r.second.toList.map fun s => (s, r.style)

/-- A connector to what an entity extends or implements. -/
structure Ascent where
  /-- The code of the entity. -/
  code : String
  /-- The code of what it extends or implements. -/
  above : String
  dashed : Bool

/-- The connectors to what an entity extends and then to what it implements. -/
def Entity.ascents (e : Entity) : List Ascent :=
  e.parents.map (fun code => ⟨e.code, code, false⟩) ++
    e.interfaces.map fun code => ⟨e.code, code, true⟩

/-- A cell is the connector of an ascent. -/
def Ascent.ShownBy (a : Ascent) (cellOf : String → Option String) (parent : String) (c : Cell) :
    Prop :=
  ∃ source target, cellOf a.code = some source ∧ cellOf a.above = some target ∧
    c.Joins parent ("", inheritanceStyle a.dashed) source target

namespace Diagram

/-- The look of the shape of an entity. -/
def look (d : Diagram) (e : Entity) : String × Style :=
  if e.kind.isSmall then (if e.kind = .diamond then "" else e.display, smallStyle e)
  else (Text.join "<br>" e.header, entityStyle e (d.size e).header)

/-- The looks of the shapes in the shape of an entity. -/
def rowLooks (d : Diagram) (e : Entity) : List (String × Style) :=
  if e.kind.isSmall then [] else (d.rows e).flatMap Row.looks

/-- A cluster is the shape of an entity with its rows. -/
structure EntityShownBy (d : Diagram) (parent : String) (e : Entity) (c : Cluster) : Prop where
  core : c.core.IsShape parent (d.look e)
  rows : Cell.Show c.id (d.rowLooks e) c.rest

/-- An end of a link has a shape: the code is that of an entity that was not removed, or of a free
note. -/
def isDrawn (d : Diagram) (code : String) : Bool :=
  d.entities.contains code && !d.removed.contains code ||
    d.notes.any fun n => n.target.free? == some code

end Diagram

/-- The cells of a class diagram, part by part. -/
structure Parts where
  title : List Cell
  frames : List Cell
  entities : List Cluster
  notes : List Cluster
  ascents : List Cell
  links : List Cluster

namespace Parts

/-- The cells of all parts, in drawing order. -/
def cells (p : Parts) : List Cell :=
  p.title ++ (p.frames ++ (p.entities.flatMap Cluster.cells ++ (p.notes.flatMap Cluster.cells ++
    (p.ascents ++ p.links.flatMap Cluster.cells))))

/-- The codes of what is drawn, with the ids of the shapes. -/
def ids (p : Parts) (d : Diagram) : List (String × String) :=
  (d.drawn.map Entity.code).zip (p.entities.map Cluster.id) ++ Relation.noteIds d.notes p.notes

/-- The shape at which connectors of a code end; a note takes the place of an entity, and a later
note that of an earlier one. -/
def cellOf (p : Parts) (d : Diagram) (code : String) : Option String :=
  (p.ids d).reverse.lookup code

/-- The parts of a drawing show a diagram. -/
structure Show (p : Parts) (d : Diagram) (parent : String) : Prop where
  title : Cell.Show parent (d.shownTitle.toList.map fun t => (t, titleStyle)) p.title
  frames : Cell.Show parent ((Folder.walkAll d.packages).map fun f =>
    (f.head.name, packageStyle f.head.color)) p.frames
  entities : List.Forall₂ (d.EntityShownBy parent) d.drawn p.entities
  notes : List.Forall₂ (fun n c => n.ShownBy parent c) d.notes p.notes
  ascents : List.Forall₂ (fun a c => a.ShownBy (p.cellOf d) parent c)
    ((d.drawn.flatMap Entity.ascents).filter fun a => d.isDrawn a.above) p.ascents
  links : List.Forall₂ (fun l c => l.ShownBy (p.cellOf d) parent c)
    (d.links.filter fun l => d.isDrawn l.source.code && d.isDrawn l.target.code) p.links

end Parts

namespace Diagram

variable {d : Diagram} {parent : String} {cells : Keyed String}

lemma puts_drawFrames {frames : Keyed Box} {ps : List (Folder PackageHead)}
    (hframes : ∀ p ∈ ps, p.path ∈ frames.keys) :
    (drawFrames frames ps).Puts parent fun _ cs =>
      Cell.Show parent (ps.map fun p => (p.head.name, packageStyle p.head.color)) cs := by
  induction ps with
  | nil => exact Puts.pure .nil
  | cons p rest ih =>
    obtain ⟨hp, hrest⟩ := List.forall_mem_cons.1 hframes
    obtain ⟨b, hb⟩ := Keyed.mem_keys_iff.1 hp
    simp only [drawFrames, hb]
    refine (puts_boxed _ _ _).bind ?_
    rintro _ _ ⟨c, rfl, -, hc⟩
    exact (ih hrest).imp fun _ _ h => .cons hc h

lemma puts_drawRows (owner : String) (width : Rat) (y : Nat) (rs : List Row) :
    (drawRows owner width y rs).Puts parent fun _ cs =>
      Cell.Show owner (rs.flatMap Row.looks) cs := by
  induction rs generalizing y with
  | nil => exact Puts.pure .nil
  | cons r rest ih =>
    rw [List.flatMap_cons, Row.looks]
    unfold drawRows
    cases r.second with
    | none =>
      refine (puts_part _ _ _ _ _ _ _).bind ?_
      rintro _ _ ⟨c, rfl, hc⟩
      exact (ih _).imp fun _ _ h => .cons hc h
    | some s =>
      refine (puts_part _ _ _ _ _ _ _).bind ?_
      rintro _ _ ⟨c, rfl, hc⟩
      refine (puts_part _ _ _ _ _ _ _).bind ?_
      rintro _ _ ⟨c', rfl, hc'⟩
      exact (ih _).imp fun _ _ h => .cons hc (.cons hc' h)

lemma puts_drawEntity (d : Diagram) (e : Entity) (b : Box) :
    (d.drawEntity e b).Puts parent fun id cs =>
      ∃ c : Cluster, cs = c.cells ∧ c.id = id ∧ d.EntityShownBy parent e c := by
  unfold drawEntity
  by_cases hsmall : e.kind.isSmall = true
  · rw [if_pos hsmall]
    refine (puts_boxed _ _ _).imp ?_
    rintro id _ ⟨core, rfl, hid, hcore⟩
    refine ⟨⟨core, []⟩, rfl, hid, ?_, ?_⟩
    · rw [look, if_pos hsmall]
      exact hcore
    · rw [rowLooks, if_pos hsmall]
      exact .nil
  · rw [if_neg hsmall]
    refine (puts_boxed _ _ _).bind ?_
    rintro _ _ ⟨core, rfl, rfl, hcore⟩
    refine (puts_drawRows _ _ _ _).bind fun _ cs hcs => Puts.pure ?_
    rw [List.append_nil]
    refine ⟨⟨core, cs⟩, rfl, rfl, ?_, ?_⟩
    · rw [look, if_neg hsmall]
      exact hcore
    · rw [rowLooks, if_neg hsmall]
      exact hcs

/-- Entities with a place are drawn one by one, and enter the table with their codes. -/
lemma puts_drawEntities {places : Keyed Box} {es : List Entity}
    (hplaces : ∀ e ∈ es, e.code ∈ places.keys) :
    (drawEntities d places cells es).Puts parent fun cells' cs =>
      ∃ clusters : List Cluster, cs = clusters.flatMap Cluster.cells ∧
        List.Forall₂ (d.EntityShownBy parent) es clusters ∧
        cells' = cells.enter ((es.map Entity.code).zip (clusters.map Cluster.id)) := by
  induction es generalizing cells with
  | nil => exact Puts.pure ⟨[], rfl, .nil, rfl⟩
  | cons e rest ih =>
    obtain ⟨he, hrest⟩ := List.forall_mem_cons.1 hplaces
    obtain ⟨b, hb⟩ := Keyed.mem_keys_iff.1 he
    simp only [drawEntities, hb]
    refine (puts_drawEntity d e b).bind ?_
    rintro _ _ ⟨c, rfl, rfl, hc⟩
    refine (ih hrest).imp ?_
    rintro _ _ ⟨clusters, rfl, hclusters, rfl⟩
    exact ⟨c :: clusters, rfl, .cons hc hclusters, rfl⟩

lemma puts_drawUpward {code id : String} (hid : cells.get? code = some id) (dashed : Bool)
    (codes : List String) :
    (drawUpward cells id dashed codes).Puts parent fun _ cs =>
      List.Forall₂ (fun a c => a.ShownBy cells.get? parent c)
        ((codes.map fun above => (⟨code, above, dashed⟩ : Ascent)).filter fun a =>
          cells.contains a.above) cs := by
  induction codes with
  | nil => exact Puts.pure .nil
  | cons above rest ih =>
    unfold drawUpward
    rw [List.map_cons]
    cases habove : cells.get? above with
    | none =>
      rw [List.filter_cons_of_neg (by simp [Keyed.contains, habove])]
      exact ih
    | some target =>
      rw [List.filter_cons_of_pos (by simp [Keyed.contains, habove])]
      refine (puts_connect _ _ _ _).bind ?_
      rintro _ _ ⟨c, rfl, -, hc⟩
      exact ih.imp fun _ _ h => .cons ⟨id, target, hid, habove, hc⟩ h

lemma puts_drawInheritance {es : List Entity} (hcells : ∀ e ∈ es, e.code ∈ cells.keys) :
    (drawInheritance cells es).Puts parent fun _ cs =>
      List.Forall₂ (fun a c => a.ShownBy cells.get? parent c)
        ((es.flatMap Entity.ascents).filter fun a => cells.contains a.above) cs := by
  induction es with
  | nil => exact Puts.pure .nil
  | cons e rest ih =>
    obtain ⟨he, hrest⟩ := List.forall_mem_cons.1 hcells
    obtain ⟨id, hid⟩ := Keyed.mem_keys_iff.1 he
    simp only [drawInheritance, hid]
    refine (puts_drawUpward hid _ _).bind fun _ cs₁ h₁ => ?_
    refine (puts_drawUpward hid _ _).bind fun _ cs₂ h₂ => ?_
    refine (ih hrest).imp fun _ cs₃ h₃ => ?_
    rw [List.flatMap_cons, Entity.ascents, List.filter_append, List.filter_append,
      ← List.append_assoc]
    exact List.rel_append (List.rel_append h₁ h₂) h₃

/-! ### What has a shape -/

lemma map_code_drawn (hd : OwnCodes d.entities) :
    d.drawn.map Entity.code = d.entities.keys.filter fun code => !d.removed.contains code := by
  rw [drawn, Keyed.keys, List.filter_map, List.map_map]
  refine List.map_congr_left fun entry hentry => ?_
  exact hd _ _ (Keyed.get?_eq_some_iff.2 (List.mem_filter.1 hentry).1)

variable {es ns : List Cluster}

/-- The table of what has a shape holds the codes of the entities that were not removed and those of
the free notes. -/
lemma contains_enter_ids (hd : OwnCodes d.entities)
    (hes : List.Forall₂ (d.EntityShownBy parent) d.drawn es)
    (hns : List.Forall₂ (fun n c => n.ShownBy parent c) d.notes ns) (code : String) :
    ((Keyed.empty.enter ((d.drawn.map Entity.code).zip (es.map Cluster.id))).enter
      (Relation.noteIds d.notes ns)).contains code = d.isDrawn code := by
  have hzip : ((d.drawn.map Entity.code).zip (es.map Cluster.id)).map Prod.fst =
      d.drawn.map Entity.code :=
    List.map_fst_zip (by simp [hes.length_eq])
  rw [Bool.eq_iff_iff, Keyed.contains_iff, ← Keyed.enter_append]
  refine Keyed.mem_keys_ofList.trans ?_
  rw [List.map_append, List.mem_append, hzip, Relation.map_fst_noteIds hns.length_eq,
    map_code_drawn hd, List.mem_filter, ← Keyed.contains_iff]
  simp [isDrawn, Relation.mem_freeCodes]

lemma isDrawn_of_mem_drawn (hd : OwnCodes d.entities) {e : Entity} (he : e ∈ d.drawn) :
    d.isDrawn e.code = true := by
  have hcode : e.code ∈ d.drawn.map Entity.code := List.mem_map_of_mem he
  rw [map_code_drawn hd, List.mem_filter, ← Keyed.contains_iff] at hcode
  rw [isDrawn, hcode.1, hcode.2, Bool.and_self, Bool.true_or]

lemma puts_sketch (hd : OwnCodes d.entities) :
    d.sketch.Puts parent fun _ cs => ∃ p : Parts, cs = p.cells ∧ p.Show d parent := by
  have hbody : ∀ (x y : Rat) (title : List Cell),
      Cell.Show parent (d.shownTitle.toList.map fun t => (t, titleStyle)) title → (do
      drawFrames (d.layout x y).1.frames (Folder.walkAll d.packages)
      let cells ← drawEntities d (d.layout x y).1.entities Keyed.empty d.drawn
      let cells ← Relation.drawNotes (d.layout x y).1.entities d.links (40, (d.layout x y).2) cells
        d.notes
      drawInheritance cells d.drawn
      Relation.drawLinks cells d.links : Sketch Unit).Puts parent fun _ cs =>
        ∃ p : Parts, title ++ cs = p.cells ∧ p.Show d parent := by
    intro x y title htitle
    refine (puts_drawFrames fun p hp => mem_keys_frames_layout hp x y).bind ?_
    intro _ frames hframes
    refine (puts_drawEntities fun e he => mem_keys_entities_layout he x y).bind ?_
    rintro _ _ ⟨es, rfl, hes, rfl⟩
    refine (Relation.puts_drawNotes _ _ _ _ _).bind ?_
    rintro table _ ⟨ns, rfl, hns, htable⟩
    have hcontains : ∀ code, table.contains code = d.isDrawn code := fun code =>
      htable ▸ contains_enter_ids hd hes hns code
    have hcellOf : ∀ ascents links,
        table.get? = Parts.cellOf ⟨title, frames, es, ns, ascents, links⟩ d := by
      intro ascents links
      funext code
      rw [htable, ← Keyed.enter_append, Keyed.get?_enter]
      exact Option.or_none
    have hkeys : ∀ e ∈ d.drawn, e.code ∈ table.keys := by
      intro e he
      rw [← Keyed.contains_iff, hcontains]
      exact isDrawn_of_mem_drawn hd he
    refine (puts_drawInheritance hkeys).bind fun _ ascents hascents => ?_
    refine (Relation.puts_drawLinks table d.links).imp ?_
    rintro _ _ ⟨links, rfl, hlinks⟩
    refine ⟨⟨title, frames, es, ns, ascents, links⟩, rfl, htitle, hframes, hes, hns, ?_, ?_⟩
    · rw [← hcellOf]
      simpa only [hcontains] using hascents
    · have hbetween : Link.isBetween table =
          fun l => d.isDrawn l.source.code && d.isDrawn l.target.code := by
        funext l
        rw [Link.isBetween, hcontains, hcontains]
      rw [← hcellOf, ← hbetween]
      exact hlinks
  unfold sketch
  cases htitle : d.shownTitle with
  | none => exact hbody _ _ [] (by rw [htitle]; exact .nil)
  | some t =>
    refine (puts_boxed _ _ _).bind ?_
    rintro _ _ ⟨c, rfl, -, hc⟩
    exact hbody _ _ [c] (by rw [htitle]; exact .cons hc .nil)

lemma nodup_map_code_drawn (hd : OwnCodes d.entities) : (d.drawn.map Entity.code).Nodup := by
  rw [map_code_drawn hd]
  exact d.entities.nodup.filter _

/-- Connectors of an entity end at its own shape, unless a free note has its code. -/
lemma cellOf_eq_some (hd : OwnCodes d.entities) {p : Parts} (hp : p.Show d parent) {e : Entity}
    {c : Cluster} (hmem : (e, c) ∈ d.drawn.zip p.entities)
    (hfree : ∀ n ∈ d.notes, n.target.free? ≠ some e.code) : p.cellOf d e.code = some c.id := by
  have hnote : (Relation.noteIds d.notes p.notes).reverse.lookup e.code = none := by
    rw [List.lookup_eq_none_iff]
    intro pair hpair
    have hcode : pair.1 ∈ Relation.freeCodes d.notes := by
      rw [← Relation.map_fst_noteIds hp.notes.length_eq]
      exact List.mem_map_of_mem (List.mem_reverse.1 hpair)
    obtain ⟨n, hn, hfree'⟩ := Relation.mem_freeCodes.1 hcode
    simpa using fun h : e.code = pair.1 => hfree n hn (h ▸ hfree')
  have hzip : ((d.drawn.map Entity.code).zip (p.entities.map Cluster.id)).map Prod.fst =
      d.drawn.map Entity.code :=
    List.map_fst_zip (by simp [hp.entities.length_eq])
  have hpair : (e.code, c.id) ∈ (d.drawn.map Entity.code).zip (p.entities.map Cluster.id) := by
    rw [List.zip_map]
    exact List.mem_map_of_mem (f := Prod.map Entity.code Cluster.id) hmem
  let table : Keyed String := ⟨((d.drawn.map Entity.code).zip (p.entities.map Cluster.id)).reverse, by
    rw [List.map_reverse, hzip, List.nodup_reverse]
    exact nodup_map_code_drawn hd⟩
  have hget : table.get? e.code = some c.id :=
    Keyed.get?_eq_some_iff.2 (List.mem_reverse.2 hpair)
  rw [Parts.cellOf, Parts.ids, List.reverse_append, List.lookup_append, hnote, Option.none_or]
  exact hget

/-- The drawing of a class diagram has one shape for each entity that was not removed and none for
the others, and one connector for each link between things that are drawn, in order, which joins
their shapes; other links have none. -/
theorem shown_drawn_read {text : String} {d : Diagram} (hread : read text = .ok d)
    (parent : String) :
    d.drawn.map Entity.code = d.entities.keys.filter (fun code => !d.removed.contains code) ∧
      ((d.draw parent).map Cell.id).Nodup ∧
      ∃ p : Parts, d.draw parent = p.cells ∧ p.Show d parent ∧
        ∀ e c, (e, c) ∈ d.drawn.zip p.entities →
          (∀ n ∈ d.notes, n.target.free? ≠ some e.code) → p.cellOf d e.code = some c.id := by
  have hd := ownCodes_read hread
  have hsketch : d.sketch.Puts parent _ := puts_sketch hd
  obtain ⟨-, p, hcells, hp⟩ := hsketch.cells
  exact ⟨map_code_drawn hd, (connected_draw d parent).nodup, p, hcells, hp,
    fun e c hmem hfree => cellOf_eq_some hd hp hmem hfree⟩

/-- A package that is opened twice, an entity that is listed in two packages, one that was removed,
and links to it, to a free note and between packages. -/
theorem shown_drawn_read_packages :
    let text := "package P \x7b\nclass A\n\x7d\npackage Q \x7b\nclass A\nclass B extends A\n\x7d\n" ++
      "package P \x7b\nclass C\n\x7d\nremove C\nnote \"n\" as N\nA --> B\nB -- N\nA -- C"
    ∃ d, Diagram.read text = .ok d ∧ d.entities.keys = ["A", "B", "C"] ∧ d.links.length = 3 ∧
      ∃ p : Parts, d.draw "1" = p.cells ∧ p.entities.length = 2 ∧ p.links.length = 2 ∧
        p.ascents.length = 1 := by
  intro text
  obtain ⟨d, hread, hd⟩ := Fault.exists_of_any (by decide +kernel :
    (Diagram.read text).toOption.any (fun d => d.entities.keys == ["A", "B", "C"] &&
      d.links.length == 3 && d.drawn.length == 2 &&
      (d.links.filter fun l => d.isDrawn l.source.code && d.isDrawn l.target.code).length == 2 &&
      ((d.drawn.flatMap Entity.ascents).filter fun a => d.isDrawn a.above).length == 1) = true)
  simp only [Bool.and_eq_true, beq_iff_eq] at hd
  obtain ⟨⟨⟨⟨hkeys, hall⟩, hdrawn⟩, hlinks⟩, hascents⟩ := hd
  obtain ⟨-, -, p, hcells, hp, -⟩ := shown_drawn_read hread "1"
  exact ⟨d, hread, hkeys, hall, p, hcells, hp.entities.length_eq.symm.trans hdrawn,
    hp.links.length_eq.symm.trans hlinks, hp.ascents.length_eq.symm.trans hascents⟩

end Diagram
end Class
end UmlDraw
