/-
# What a drawing of a use case or component diagram shows

Every element of a diagram has a place, and everything in the diagram is drawn.

The main statements are

* `Plan.mem_flatten_layers`: the elements in layers;
* `Plan.places_placeContainer`: what a container with its contents places;
* `Diagram.mem_keys_shapes_layout` and `Diagram.mem_keys_containers_layout`: what has a place;
* `Diagram.shown_all_read`: the parts of a drawing.
-/
import UmlDraw.Description.Layout
import UmlDraw.Proofs.Data.Outcome
import UmlDraw.Proofs.Description.Reader
import UmlDraw.Proofs.Drawing.Relation
import UmlDraw.Proofs.Layout.Layering

namespace UmlDraw

/-! ## Every element has a place

What is placed stays placed.  Layers hold all the elements that stand in layers, in containers and
at the top.  The other elements are ports of containers; they are placed last, when every container
has its place. -/

namespace Description
namespace Plan

variable {p : Plan} {l l' l'' : Layout} {codes codes' paths paths' : List String}

lemma flatten_chunks {size n : Nat} (hsize : 0 < size) (h : codes.length ≤ n) :
    (chunks size n codes).flatten = codes := by
  induction n generalizing codes with
  | zero =>
    rw [List.eq_nil_of_length_eq_zero (Nat.le_zero.1 h)]
    rfl
  | succ n ih =>
    cases codes with
    | nil => rfl
    | cons c rest =>
      rw [chunks, List.flatten_cons, ih, List.take_append_drop]
      · rw [List.length_drop]
        omega
      · exact List.cons_ne_nil c rest

/-- Layers hold the elements that stand in layers. -/
theorem mem_flatten_layers {code : String} :
    code ∈ (p.layers codes).flatten ↔ code ∈ codes ∧ code ∈ p.layered := by
  have hchunks : ∀ layer : List String,
      (chunks maxPerLayer layer.length layer).flatten = layer := fun layer =>
    flatten_chunks (by decide) (Nat.le_refl _)
  have hflat : (p.layers codes).flatten =
      (Layering.layers ((gather p.groups codes).filter p.layered.contains) p.links).flatten := by
    rw [layers, List.flatMap, List.flatten_flatten, List.map_map]
    simp [Function.comp_def, hchunks]
  rw [hflat, Layering.mem_flatten_layers, List.mem_filter, mem_gather, List.contains_iff_mem]

lemma gains_placeColumn (p : Plan) (x width y : Rat) (shapes : Keyed Box) (codes : List String) :
    shapes.Gains (p.placeColumn x width y shapes codes).1 codes := by
  induction codes generalizing y shapes with
  | nil => exact Keyed.Gains.refl _
  | cons code rest ih =>
    rw [placeColumn]
    exact (Keyed.gains_insert shapes code _).trans (ih _ _)

lemma gains_placeRow (p : Plan) (y height x : Rat) (shapes : Keyed Box) (codes : List String) :
    shapes.Gains (p.placeRow y height x shapes codes).1 codes := by
  induction codes generalizing x shapes with
  | nil => exact Keyed.Gains.refl _
  | cons code rest ih =>
    rw [placeRow]
    exact (Keyed.gains_insert shapes code _).trans (ih _ _)

lemma gains_placeColumns (p : Plan) (x y right bottom : Rat) (shapes : Keyed Box)
    (layers : List (List String)) :
    shapes.Gains (p.placeColumns x y right bottom shapes layers).1 layers.flatten := by
  induction layers generalizing x right bottom shapes with
  | nil => exact Keyed.Gains.refl _
  | cons layer rest ih =>
    rw [placeColumns, List.flatten_cons]
    exact (gains_placeColumn p _ _ _ shapes layer).trans (ih _ _ _ _)

lemma gains_placeRows (p : Plan) (x y right bottom : Rat) (shapes : Keyed Box)
    (layers : List (List String)) :
    shapes.Gains (p.placeRows x y right bottom shapes layers).1 layers.flatten := by
  induction layers generalizing y right bottom shapes with
  | nil => exact Keyed.Gains.refl _
  | cons layer rest ih =>
    rw [placeRows, List.flatten_cons]
    exact (gains_placeRow p _ _ _ shapes layer).trans (ih _ _ _ _)

lemma gains_arrange (p : Plan) (x y : Rat) (shapes : Keyed Box) (codes : List String) :
    shapes.Gains (p.arrange x y shapes codes).1 (codes.filter p.layered.contains) := by
  have hsub : codes.filter p.layered.contains ⊆ (p.layers codes).flatten := by
    intro code h
    rw [List.mem_filter, List.contains_iff_mem] at h
    exact mem_flatten_layers.2 h
  unfold arrange
  split
  · exact (gains_placeColumns p _ _ _ _ shapes _).mono hsub
  · exact (gains_placeRows p _ _ _ _ shapes _).mono hsub

/-! ### Containers -/

/-- The second layout has all places of the first one, and places for those of the given codes that
stand in layers and for the given paths. -/
structure Places (p : Plan) (l : Layout) (codes paths : List String) (l' : Layout) : Prop where
  shapes : l.shapes.Gains l'.shapes (codes.filter p.layered.contains)
  containers : l.containers.Gains l'.containers paths

lemma Places.refl (p : Plan) (l : Layout) : p.Places l [] [] l :=
  ⟨Keyed.Gains.refl _, Keyed.Gains.refl _⟩

lemma Places.trans (h : p.Places l codes paths l') (h' : p.Places l' codes' paths' l'') :
    p.Places l (codes ++ codes') (paths ++ paths') l'' where
  shapes := List.filter_append _ _ ▸ h.shapes.trans h'.shapes
  containers := h.containers.trans h'.containers

lemma Places.mono (h : p.Places l codes paths l') (hcodes : codes' ⊆ codes)
    (hpaths : paths' ⊆ paths) : p.Places l codes' paths' l' where
  shapes := h.shapes.mono (List.filter_subset _ hcodes)
  containers := h.containers.mono hpaths

/-- A container goes before the containers behind it. -/
lemma Places.cons {c : Folder ContainerHead} {cs : List (Folder ContainerHead)}
    (h : p.Places l (Folder.allMembers [c]) ((Folder.walkAll [c]).map Folder.path) l')
    (h' : p.Places l' (Folder.allMembers cs) ((Folder.walkAll cs).map Folder.path) l'') :
    p.Places l (Folder.allMembers (c :: cs)) ((Folder.walkAll (c :: cs)).map Folder.path) l'' := by
  have hboth := h.trans h'
  rwa [← Folder.allMembers_append, ← List.map_append, ← Folder.walkAll_append] at hboth

lemma places_arrangeIn (p : Plan) (x y : Rat) (l : Layout) (right bottom : Rat)
    (codes : List String) : p.Places l codes [] (p.arrangeIn x y l right bottom codes).1 := by
  unfold arrangeIn
  split
  · next hempty =>
    rw [List.isEmpty_iff.1 hempty]
    exact Places.refl p l
  · exact ⟨gains_arrange p x y l.shapes codes, Keyed.Gains.refl _⟩

/-- The border of a container, which gives its code a place unless it has one. -/
lemma places_border (p : Plan) (l : Layout) (code path : String) (b : Box) :
    p.Places l [] [path] ⟨if l.shapes.contains code then l.shapes else l.shapes.insert code b,
      l.containers.insert path b⟩ where
  shapes := by
    split
    · exact Keyed.Gains.refl _
    · exact (Keyed.gains_insert _ _ _).mono (List.nil_subset _)
  containers := Keyed.gains_insert _ _ _

mutual

lemma places_placeContainer (p : Plan) (x0 y0 : Rat) (l : Layout) : (c : Folder ContainerHead) →
    p.Places l (Folder.allMembers [c]) ((Folder.walkAll [c]).map Folder.path)
      (p.placeContainer x0 y0 l c).1
  | .node head path members inner => by
    rw [placeContainer]
    have hmembers := places_arrangeIn p (x0 + padding)
      (y0 + padding + (14 * head.stereotypes.length : Nat)) l
      (x0 + (max 120 (textWidth head.name + 60) : Nat))
      (y0 + padding + (14 * head.stereotypes.length : Nat)) members
    generalize p.arrangeIn (x0 + padding) (y0 + padding + (14 * head.stereotypes.length : Nat)) l
      (x0 + (max 120 (textWidth head.name + 60) : Nat))
      (y0 + padding + (14 * head.stereotypes.length : Nat)) members = placed at hmembers ⊢
    obtain ⟨l₁, right, bottom⟩ := placed
    have hinner := places_placeContainers p (x0 + padding)
      (if y0 + padding + (14 * head.stereotypes.length : Nat) < bottom then bottom + padding
        else y0 + padding + (14 * head.stereotypes.length : Nat)) right bottom l₁ inner
    -- the border comes last
    refine ((hmembers.trans hinner).trans (places_border p _ head.code path _)).mono ?_ ?_
    · simp [Folder.allMembers, Folder.walkAll_singleton, Folder.members, Folder.inner]
    · simp [Folder.walkAll_singleton, Folder.path, Folder.inner]

lemma places_placeContainers (p : Plan) (x y right bottom : Rat) (l : Layout) :
    (cs : List (Folder ContainerHead)) →
    p.Places l (Folder.allMembers cs) ((Folder.walkAll cs).map Folder.path)
      (p.placeContainers x y right bottom l cs).1
  | [] => Places.refl p l
  | c :: rest => by
    rw [placeContainers]
    exact Places.cons (places_placeContainer p x y l c) (places_placeContainers p _ _ _ _ _ rest)

end

lemma places_placeTop (p : Plan) (x y : Rat) (l : Layout) (cs : List (Folder ContainerHead)) :
    p.Places l (Folder.allMembers cs) ((Folder.walkAll cs).map Folder.path)
      (p.placeTop x y l cs) := by
  induction cs generalizing x y l with
  | nil => exact Places.refl p l
  | cons c rest ih =>
    rw [placeTop]
    exact Places.cons (places_placeContainer p x y l c) (ih _ _ _)

end Plan

/-! ### Ports -/

/-- Ports whose container has a place are placed. -/
lemma gains_placePorts (before : List Element) (l : Layout) (es : List Element) :
    l.shapes.Gains (placePorts before l es).shapes ((es.filter fun e =>
        e.kind.isPort && (e.containerPath.bind l.containers.get?).isSome).map Element.code) ∧
      (placePorts before l es).containers = l.containers := by
  induction es generalizing before l with
  | nil => exact ⟨Keyed.Gains.refl _, rfl⟩
  | cons e rest ih =>
    rw [placePorts]
    by_cases hport : e.kind.isPort = true
    · rw [if_pos hport]
      cases hbox : e.containerPath.bind l.containers.get? with
      | none =>
        rw [List.filter_cons_of_neg (by simp [hbox])]
        exact ih _ _
      | some b =>
        rw [List.filter_cons_of_pos (by simp [hport, hbox]), List.map_cons]
        have hrest : ∀ place, _ := fun place =>
          ih (e :: before) { l with shapes := l.shapes.insert e.code place }
        exact ⟨(Keyed.gains_insert l.shapes e.code _).trans (hrest _).1, (hrest _).2⟩
    · rw [if_neg hport, List.filter_cons_of_neg (by simp [hport])]
      exact ih _ _

namespace Diagram

variable {d : Diagram}

/-- What has a place before the ports: all containers, and the elements that stand in layers. -/
lemma exists_places_layout (d : Diagram) (dialect : Dialect) (x y : Rat) :
    ∃ l, d.layout dialect x y = placePorts [] l d.elements.values ∧
      (d.plan dialect).Places {} d.elements.keys ((Folder.walkAll d.containers).map Folder.path)
        l := by
  generalize hroots : d.elements.keys.filter
    (fun code => !(Folder.allMembers d.containers).contains code) = roots
  have hplaces : ∀ x y l, (d.plan dialect).Places {} roots [] l →
      (d.plan dialect).Places {} d.elements.keys ((Folder.walkAll d.containers).map Folder.path)
        ((d.plan dialect).placeTop x y l d.containers) := by
    intro x y l htop
    refine (htop.trans (Plan.places_placeTop _ x y l d.containers)).mono (fun code h => ?_)
      (List.Subset.refl _)
    rw [List.mem_append, ← hroots, List.mem_filter]
    by_cases hcontained : code ∈ Folder.allMembers d.containers
    · exact .inr hcontained
    · exact .inl ⟨h, by simpa using hcontained⟩
  unfold layout
  dsimp only
  rw [hroots]
  split
  · next hempty =>
    rw [List.isEmpty_iff.1 hempty] at hplaces
    exact ⟨_, rfl, hplaces _ _ _ (Plan.Places.refl _ _)⟩
  · exact ⟨_, rfl, hplaces _ _ _ ⟨Plan.gains_arrange _ _ _ _ _, Keyed.Gains.refl _⟩⟩

/-- Every container has a place. -/
theorem mem_keys_containers_layout {c : Folder ContainerHead}
    (hc : c ∈ Folder.walkAll d.containers) (dialect : Dialect) (x y : Rat) :
    c.path ∈ (d.layout dialect x y).containers.keys := by
  obtain ⟨l, hl, hplaces⟩ := d.exists_places_layout dialect x y
  rw [hl, (gains_placePorts [] l d.elements.values).2]
  exact hplaces.containers.new (List.mem_map_of_mem hc)

/-- Every element has a place: in a layer, or on the border of its container. -/
theorem mem_keys_shapes_layout (hd : d.Resolved) {e : Element} (he : e ∈ d.elements.values)
    (dialect : Dialect) (x y : Rat) : e.code ∈ (d.layout dialect x y).shapes.keys := by
  obtain ⟨l, hl, hplaces⟩ := d.exists_places_layout dialect x y
  have hget := (Keyed.mem_values_iff hd.code).1 he
  obtain ⟨hports, -⟩ := gains_placePorts [] l d.elements.values
  rw [hl]
  by_cases hlayered : e.isLayered = true
  · refine hports.old (hplaces.shapes.new (List.mem_filter.2 ⟨?_, ?_⟩))
    · exact Keyed.mem_keys_iff.2 ⟨e, hget⟩
    · rw [List.contains_iff_mem]
      exact List.mem_map_of_mem (List.mem_filter.2 ⟨he, hlayered⟩)
  · -- a port in a container, which has a place by now
    simp only [Element.isLayered, Bool.not_eq_true', Bool.not_eq_false, Bool.and_eq_true] at hlayered
    obtain ⟨hport, hpath⟩ := hlayered
    obtain ⟨path, hpath⟩ := Option.isSome_iff_exists.1 hpath
    have hpath := (Option.filter_eq_some_iff.1 hpath).1
    obtain ⟨c, hc, rfl⟩ := hd.path _ e path hget hpath
    obtain ⟨b, hb⟩ := Keyed.mem_keys_iff.1 (hplaces.containers.new (List.mem_map_of_mem hc))
    refine hports.new (List.mem_map_of_mem (List.mem_filter.2 ⟨he, ?_⟩))
    simp [hport, hpath, hb]

end Diagram

/-! ## The parts of a drawing

The cells of a drawing are told part by part: the title, the containers, the elements, the notes and
the links.  An element with the code of a container is not drawn beside it; everything else in the
diagram is, and no link is left out.  At the ends of connectors a free note takes the place of a
container or an element with its code, and a container that of an element. -/


open Sketch

/-- The look of a container. -/
def ContainerHead.look (c : ContainerHead) : String × Style :=
  (labelOf c.name c.stereotypes, containerStyle c)

/-- The look of an element. -/
def Element.look (e : Element) : String × Style :=
  (labelOf e.display e.stereotypes, elementStyle e)

namespace Diagram

/-- The codes of the containers, in drawing order. -/
def containerCodes (d : Diagram) : List String :=
  (Folder.walkAll d.containers).map fun c => c.head.code

/-- The elements that no container stands for. -/
def drawn (d : Diagram) : List Element :=
  d.elements.values.filter fun e => !d.containerCodes.contains e.code

end Diagram

/-- The cells of a use case or component diagram, part by part. -/
structure Parts where
  title : List Cell
  containers : List Cell
  elements : List Cell
  notes : List Cluster
  links : List Cluster

namespace Parts

/-- The cells of all parts, in drawing order. -/
def cells (p : Parts) : List Cell :=
  p.title ++ (p.containers ++ (p.elements ++ (p.notes.flatMap Cluster.cells ++
    p.links.flatMap Cluster.cells)))

/-- The shape at which connectors of a code end: the last free note with the code, else the first
container with it, else the element. -/
def cellOf (p : Parts) (d : Diagram) (code : String) : Option String :=
  ((Relation.noteIds d.notes p.notes).reverse ++
    d.containerCodes.zip (p.containers.map Cell.id) ++
    (d.drawn.map Element.code).zip (p.elements.map Cell.id)).lookup code

/-- The parts of a drawing show a diagram. -/
structure Show (p : Parts) (d : Diagram) (parent : String) : Prop where
  title : Cell.Show parent (d.shownTitle.toList.map fun t => (t, titleStyle)) p.title
  containers : Cell.Show parent ((Folder.walkAll d.containers).map fun c => c.head.look)
    p.containers
  elements : Cell.Show parent (d.drawn.map Element.look) p.elements
  notes : List.Forall₂ (fun n c => n.ShownBy parent c) d.notes p.notes
  links : List.Forall₂ (fun l c => l.ShownBy (p.cellOf d) parent c) d.links p.links

end Parts

namespace Diagram

variable {d : Diagram} {parent : String} {cells : Keyed String}

/-- Containers are drawn one by one; of those with one code the first enters the table. -/
lemma puts_drawContainers {places : Keyed Box} {cs : List (Folder ContainerHead)}
    (hplaces : ∀ c ∈ cs, c.path ∈ places.keys) :
    (drawContainers places cells cs).Puts parent fun cells' drawn =>
      Cell.Show parent (cs.map fun c => c.head.look) drawn ∧
        cells' = cells.enterNew ((cs.map fun c => c.head.code).zip (drawn.map Cell.id)) := by
  induction cs generalizing cells with
  | nil => exact Puts.pure ⟨.nil, rfl⟩
  | cons c rest ih =>
    obtain ⟨hc, hrest⟩ := List.forall_mem_cons.1 hplaces
    obtain ⟨b, hb⟩ := Keyed.mem_keys_iff.1 hc
    simp only [drawContainers, hb]
    refine (puts_boxed _ _ _).bind ?_
    rintro _ _ ⟨cell, rfl, rfl, hcell⟩
    refine (ih hrest).imp ?_
    rintro _ drawn ⟨hdrawn, rfl⟩
    exact ⟨.cons hcell hdrawn, rfl⟩

/-- Elements are drawn one by one, unless their code has a cell. -/
lemma puts_drawElements {places : Keyed Box} {es : List Element}
    (hplaces : ∀ e ∈ es, e.code ∈ places.keys) (hnodup : (es.map Element.code).Nodup) :
    (drawElements places cells es).Puts parent fun cells' drawn =>
      Cell.Show parent ((es.filter fun e => !cells.contains e.code).map Element.look) drawn ∧
        cells' = cells.enterNew (((es.filter fun e => !cells.contains e.code).map Element.code).zip
          (drawn.map Cell.id)) := by
  induction es generalizing cells with
  | nil => exact Puts.pure ⟨.nil, rfl⟩
  | cons e rest ih =>
    obtain ⟨he, hrest⟩ := List.forall_mem_cons.1 hplaces
    rw [List.map_cons, List.nodup_cons] at hnodup
    unfold drawElements
    by_cases hknown : cells.contains e.code = true
    · rw [if_pos hknown, List.filter_cons_of_neg (by simp [hknown])]
      exact ih hrest hnodup.2
    · obtain ⟨b, hb⟩ := Keyed.mem_keys_iff.1 he
      rw [if_neg hknown, List.filter_cons_of_pos (by simp [hknown])]
      simp only [hb]
      refine (puts_boxed _ _ _).bind ?_
      rintro _ _ ⟨cell, rfl, rfl, hcell⟩
      -- the other elements have other codes
      have hothers : (rest.filter fun e' => !(cells.insert e.code cell.id).contains e'.code) =
          rest.filter fun e' => !cells.contains e'.code := by
        refine List.filter_congr fun e' he' => ?_
        have hne : e'.code ≠ e.code := fun h => hnodup.1 (h ▸ List.mem_map_of_mem he')
        rw [Keyed.contains, Keyed.get?_insert, if_neg hne, Keyed.contains]
      refine (ih hrest hnodup.2).imp ?_
      rintro _ drawn ⟨hdrawn, rfl⟩
      rw [hothers] at hdrawn ⊢
      exact ⟨.cons hcell hdrawn, (Keyed.enterNew_cons hknown _ _).symm⟩

/-! ### What links name -/

lemma map_fst_ids {α : Type} {looks : List (String × Style)} {cs : List Cell} {as : List α}
    {code : α → String} (hcs : Cell.Show parent looks cs) (hlength : as.length = looks.length) :
    ((as.map code).zip (cs.map Cell.id)).map Prod.fst = as.map code :=
  List.map_fst_zip (by simp [hlength, hcs.length_eq])

/-- Every end of a link has a shape. -/
lemma isSome_cellOf (hd : d.Resolved) {p : Parts}
    (hcontainers : Cell.Show parent ((Folder.walkAll d.containers).map fun c => c.head.look)
      p.containers)
    (helements : Cell.Show parent (d.drawn.map Element.look) p.elements)
    (hnotes : List.Forall₂ (fun n c => n.ShownBy parent c) d.notes p.notes)
    {l : Link} (hl : l ∈ d.links) {code : String} (hcode : code ∈ [l.source.code, l.target.code]) :
    (p.cellOf d code).isSome = true := by
  have hends : code ∈ d.elements.keys ∨ code ∈ d.containerCodes ∨
      code ∈ Relation.freeCodes d.notes := by
    simpa [IsContainer, containerCodes] using hd.ends l hl code hcode
  rw [Parts.cellOf, Keyed.isSome_lookup_iff, List.map_append, List.map_append, List.mem_append,
    List.mem_append, List.map_reverse, List.mem_reverse,
    Relation.map_fst_noteIds hnotes.length_eq, containerCodes,
    map_fst_ids hcontainers (by simp), ← containerCodes, map_fst_ids helements (by simp)]
  rcases hends with h | h | h
  · by_cases hcontainer : code ∈ d.containerCodes
    · exact .inl (.inr hcontainer)
    · rw [← Keyed.map_values hd.code] at h
      obtain ⟨e, he, rfl⟩ := List.mem_map.1 h
      exact .inr (List.mem_map_of_mem (List.mem_filter.2 ⟨he, by simpa using hcontainer⟩))
  · exact .inl (.inr h)
  · exact .inl (.inl h)

lemma puts_sketch (hd : d.Resolved) (dialect : Dialect) :
    (d.sketch dialect).Puts parent fun _ cs => ∃ p : Parts, cs = p.cells ∧ p.Show d parent := by
  have hbody : ∀ (layout : Layout) (bottom : Rat) (title : List Cell),
      (∀ c ∈ Folder.walkAll d.containers, c.path ∈ layout.containers.keys) →
      (∀ e ∈ d.elements.values, e.code ∈ layout.shapes.keys) →
      Cell.Show parent (d.shownTitle.toList.map fun t => (t, titleStyle)) title → (do
      let cells ← drawContainers layout.containers Keyed.empty (Folder.walkAll d.containers)
      let cells ← drawElements layout.shapes cells d.elements.values
      let cells ← Relation.drawNotes layout.shapes d.links (40, bottom) cells d.notes
      Relation.drawLinks cells d.links : Sketch Unit).Puts parent fun _ cs =>
        ∃ p : Parts, title ++ cs = p.cells ∧ p.Show d parent := by
    intro layout bottom title hpaths hcodes htitle
    refine (puts_drawContainers hpaths).bind ?_
    rintro table containers ⟨hcontainers, htable⟩
    have hnodup : (d.elements.values.map Element.code).Nodup := by
      rw [Keyed.map_values hd.code]
      exact d.elements.nodup
    have hdrawn : (d.elements.values.filter fun e => !table.contains e.code) = d.drawn := by
      refine List.filter_congr fun e _ => ?_
      rw [Bool.eq_iff_iff, Bool.not_eq_true', Bool.not_eq_true', ← Bool.not_eq_true,
        ← Bool.not_eq_true, List.contains_iff_mem, Keyed.contains, htable, Keyed.get?_enterNew]
      refine not_congr (Keyed.isSome_lookup_iff.trans ?_)
      rw [map_fst_ids hcontainers (by simp)]
      rfl
    refine (puts_drawElements hcodes hnodup).bind ?_
    rw [hdrawn]
    rintro _ elements ⟨helements, rfl⟩
    refine (Relation.puts_drawNotes _ _ _ _ _).bind ?_
    rintro table' _ ⟨notes, rfl, hnotes, htable'⟩
    refine (Relation.puts_drawLinks table' d.links).imp ?_
    rintro _ _ ⟨links, rfl, hlinks⟩
    refine ⟨⟨title, containers, elements, notes, links⟩, rfl, htitle, hcontainers, helements,
      hnotes, ?_⟩
    have hcellOf : table'.get? = Parts.cellOf ⟨title, containers, elements, notes, links⟩ d := by
      funext code
      rw [htable', Keyed.get?_enter, htable, ← Keyed.enterNew_append, Keyed.get?_enterNew,
        Parts.cellOf, List.append_assoc]
      exact List.lookup_append.symm
    have hall : d.links.filter (Link.isBetween table') = d.links := by
      refine List.filter_eq_self.2 fun l hl => ?_
      have hend : ∀ code ∈ [l.source.code, l.target.code], table'.contains code = true := by
        intro code hcode
        rw [Keyed.contains, hcellOf]
        exact isSome_cellOf hd hcontainers helements hnotes hl hcode
      rw [Link.isBetween, hend _ (by simp), hend _ (by simp), Bool.and_self]
    rw [hall, hcellOf] at hlinks
    exact hlinks
  have hpaths : ∀ c ∈ Folder.walkAll d.containers,
      c.path ∈ (d.layout dialect d.originX d.originY).containers.keys := fun c hc =>
    mem_keys_containers_layout hc dialect _ _
  have hcodes : ∀ e ∈ d.elements.values,
      e.code ∈ (d.layout dialect d.originX d.originY).shapes.keys := fun e he =>
    mem_keys_shapes_layout hd he dialect _ _
  unfold sketch
  cases htitle : d.shownTitle with
  | none => exact hbody _ _ [] hpaths hcodes (by rw [htitle]; exact .nil)
  | some t =>
    refine (puts_boxed _ _ _).bind ?_
    rintro _ _ ⟨c, rfl, -, hc⟩
    exact hbody _ _ [c] hpaths hcodes (by rw [htitle]; exact .cons hc .nil)

/-- The drawing of a use case or component diagram has one shape for each container and for each
element that no container stands for, and one connector for each link, in order, which joins the
shapes of its two codes. -/
theorem shown_all_read {dialect : Dialect} {text : String} {d : Diagram}
    (hread : read dialect text = .ok d) (parent : String) :
    d.elements.values.map Element.code = d.elements.keys ∧
      ((d.draw dialect parent).map Cell.id).Nodup ∧
      ∃ p : Parts, d.draw dialect parent = p.cells ∧ p.Show d parent := by
  have hd := resolved_read hread
  have hsketch : (d.sketch dialect).Puts parent _ := puts_sketch hd dialect
  obtain ⟨-, hparts⟩ := hsketch.cells
  exact ⟨Keyed.map_values hd.code, (connected_draw d dialect parent).nodup, hparts⟩

/-- A port in a container, an element with the code of a container, a container that is opened
twice, and links to a container, a port, a free note and a name that is nowhere else. -/
theorem shown_all_read_ports :
    let text := "node N \x7b\nport P\n\x7d\ncomponent N\nnode N \x7b\n\x7d\n" ++
      "note \"n\" as F\nN --> P\nF -- [New]\nN -- F"
    ∃ d, Diagram.read .components text = .ok d ∧ d.elements.keys = ["P", "N", "New"] ∧
      ∃ p : Parts, d.draw .components "1" = p.cells ∧ p.containers.length = 2 ∧
        p.elements.length = 2 ∧ p.links.length = 3 := by
  intro text
  obtain ⟨d, hread, hd⟩ := Fault.exists_of_any (by decide +kernel :
    (Diagram.read .components text).toOption.any (fun d => d.elements.keys == ["P", "N", "New"] &&
      (Folder.walkAll d.containers).length == 2 && d.drawn.length == 2 &&
      d.links.length == 3) = true)
  simp only [Bool.and_eq_true, beq_iff_eq] at hd
  obtain ⟨⟨⟨hkeys, hcontainers⟩, helements⟩, hlinks⟩ := hd
  obtain ⟨-, -, p, hcells, hp⟩ := shown_all_read hread "1"
  refine ⟨d, hread, hkeys, p, hcells, ?_, ?_, hp.links.length_eq.symm.trans hlinks⟩
  · rw [← hp.containers.length_eq, List.length_map, hcontainers]
  · rw [← hp.elements.length_eq, List.length_map, helements]

end Diagram
end Description
end UmlDraw
