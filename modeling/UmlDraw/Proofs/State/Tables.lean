/-
# A layout with tables

A layout can be made without a tree.  One walk through the elements enters sizes and arrangements
into tables, the next one enters the places on the page, and two more read them to draw composite
states and then the other elements.  The walks follow the lists of codes from the top through the
members of composite states, and nothing but these lists says that they come to an end.

So every reading of a table is checked here, and so is every step into a composite state: it must
not be one of those around it, and no more elements may be nested than there are.  The modules about
the walks show that no check ever fails.

The main statements are

* `Diagram.climb_eq_ok`: the way from an element outwards ends;
* `Diagram.part_eq`: the size of an element without a bound for the depth;
* `Diagram.arrangeBy_eq_ok` and `stackBy_eq_ok`: arrangements by a table of sizes.
-/
import UmlDraw.Proofs.Data.Keyed
import UmlDraw.Proofs.Data.Outcome
import UmlDraw.Proofs.State.Place
import UmlDraw.Proofs.State.Shown

namespace UmlDraw
namespace State

/-! ## The walks -/

/-- The tables of a layout. -/
inductive Table where
  | elements
  | sizes
  | insides
  | corners
  | places
deriving DecidableEq, Repr

/-- What stops a layout. -/
inductive Stop where
  /-- A table has no value for a code. -/
  | missing (table : Table) (code : String)
  /-- A composite state is around itself. -/
  | ring (code : String)
  /-- More elements are nested than there are. -/
  | depth
deriving DecidableEq, Repr

/-- Reads a table for a code that must have a value. -/
def Table.fetch {α : Type} (name : Table) (t : Keyed α) (code : String) : Except Stop α :=
  match t.get? code with
  | some a => .ok a
  | none => .error (.missing name code)

/-- Enters a composite state; `way` are those around it. -/
def enter (way : List String) (code : String) : Except Stop (List String) :=
  if way.contains code then .error (.ring code) else .ok (code :: way)

/-- What is known of the elements that were measured. -/
structure Measures where
  sizes : Keyed (Rat × Rat) := Keyed.empty
  /-- The arrangements inside composite states. -/
  insides : Keyed Arrangement := Keyed.empty

/-- Enters the size of an element. -/
def Measures.enterSize (m : Measures) (code : String) (size : Rat × Rat) : Measures :=
  { m with sizes := m.sizes.insert code size }

/-- Enters the arrangement inside a composite state. -/
def Measures.enterInside (m : Measures) (code : String) (inside : Arrangement) : Measures :=
  { m with insides := m.insides.insert code inside }

/-- An element of which only the code and the size are known. -/
def Part.outline (code : String) (size : Rat × Rat) : Part :=
  .node { code := code, display := "" } size.1 size.2 {} []

/-- The size of a composite state around an arrangement. -/
def compositeSize (e : Element) (inside : Arrangement) : Rat × Rat :=
  ((Diagram.enclose e inside []).width, (Diagram.enclose e inside []).height)

/-- An arrangement of elements that stand in layers. -/
def Axis.arrangeLayers (a : Axis) (layers : List (List Part)) : Arrangement :=
  let breadth := Box.greatest 0 (layers.map a.breadth)
  let (corners, stop) := a.placeLayers breadth 0 Keyed.empty layers
  let (width, height) := a.turn (stop - a.gapAlong) breadth
  { width := width, height := height, corners := corners }

/-- Moves some elements to the right. -/
def moveBy (shift : Rat) (codes : List String) (corners : Keyed (Rat × Rat)) :
    Except Stop (Keyed (Rat × Rat)) :=
  codes.foldlM (fun t code => do
    let corner ← Table.corners.fetch t code
    pure (t.insert code (corner.1 + shift, corner.2))) corners

/-- Moves some elements together into the middle of the width. -/
def centerBy (sizes : Keyed (Rat × Rat)) (a : Arrangement) (codes : List String) :
    Except Stop Arrangement := do
  let rights ← codes.mapM fun code => do
    let corner ← Table.corners.fetch a.corners code
    let size ← Table.sizes.fetch sizes code
    pure (corner.1 + size.1)
  let corners ← moveBy ((a.width - Box.greatest 0 rights) / 2) codes a.corners
  pure { a with corners := corners }

/-- Regions below each other, each in the middle of the widest one. -/
def stackBy (sizes : Keyed (Rat × Rat)) :
    List (List String × Arrangement) → Except Stop Arrangement
  | [] => pure {}
  | (codes, first) :: rest =>
    let all := rest.foldl (fun a (_, inner) => a.below inner) first
    (codes :: rest.map Prod.fst).foldlM (centerBy sizes) all

namespace Diagram

/-- The first of some elements that is a given element or holds it; `seen` are the elements that the
way outwards came from. -/
def climb (d : Diagram) (members : List String) :
    Nat → List String → String → Except Stop (Option String)
  | 0, _, _ => .error .depth
  | n + 1, seen, code =>
    if seen.contains code then pure none
    else if members.contains code then pure (some code)
    else
      match (d.elements.get? code).bind Element.parent with
      | some parent => climb d members n (code :: seen) parent
      | none => pure none

/-- The links that the transitions make between some elements. -/
def linksBy (d : Diagram) (members : List String) : Except Stop (List (String × String)) := do
  let climb := d.climb members (d.elements.entries.length + 1) []
  let ends ← d.transitions.mapM fun t => do
    let source ← climb t.source
    let target ← climb t.target
    pure (source, target)
  pure <| ends.filterMap fun (source, target) => do
    let source ← source
    let target ← target
    if source.isEmpty || target.isEmpty then none else some (source, target)

/-- What is known of the elements of layers. -/
def outlinesBy (sizes : Keyed (Rat × Rat)) (layers : List (List String)) :
    Except Stop (List (List Part)) :=
  layers.mapM fun layer => layer.mapM fun code => do
    let size ← Table.sizes.fetch sizes code
    pure (Part.outline code size)

/-- Arranges elements along the transitions between them. -/
def arrangeBy (d : Diagram) (sizes : Keyed (Rat × Rat)) (codes : List String) :
    Except Stop Arrangement :=
  if codes.isEmpty then pure {}
  else do
    let links ← d.linksBy codes
    let layers ← outlinesBy sizes (Layering.layers codes links)
    pure (Axis.arrangeLayers ⟨d.leftToRight⟩ layers)

section Measure

variable (d : Diagram) (measure : String → Measures → Except Stop Measures)

/-- Measures elements and arranges them. -/
def layoutBy (codes : List String) (m : Measures) : Except Stop (Measures × Arrangement) := do
  let m ← codes.foldlM (fun m code => measure code m) m
  let a ← d.arrangeBy m.sizes codes
  pure (m, a)

/-- Measures and arranges regions one after the other. -/
def layoutsBy : List Region → Measures →
    Except Stop (Measures × List (List String × Arrangement))
  | [], m => pure (m, [])
  | region :: rest, m => do
    let (m, a) ← d.layoutBy measure region.members m
    let (m, others) ← layoutsBy rest m
    pure (m, (region.members, a) :: others)

/-- Measures and arranges what is in a composite state. -/
def insideBy (contents : Contents) (m : Measures) : Except Stop (Measures × Arrangement) :=
  match contents with
  | .direct members _ => d.layoutBy measure members m
  | .concurrent first middle last => do
    let (m, regions) ← d.layoutsBy measure (first :: middle ++ [last]) m
    let a ← stackBy m.sizes regions
    pure (m, a)

end Measure

/-- Measures an element and those in it. -/
def measureBy (d : Diagram) : Nat → List String → String → Measures → Except Stop Measures
  | 0, _, _, _ => .error .depth
  | n + 1, way, code, m => do
    let e ← Table.elements.fetch d.elements code
    if e.isComposite then
      let way ← enter way code
      let (m, inside) ← d.insideBy (measureBy d n way) e.contents m
      pure ((m.enterInside e.code inside).enterSize code (compositeSize e inside))
    else pure (m.enterSize code (e.leafSize.1, e.leafSize.2))

/-- Enters the places of an element and of those in it, if the arrangement around it has the given
corner. -/
def placeBy (d : Diagram) (m : Measures) : Nat → List String → Arrangement → Rat → Rat →
    Keyed Box → String → Except Stop (Keyed Box)
  | 0, _, _, _, _, _, _ => .error .depth
  | n + 1, way, around, x, y, places, code => do
    let corner ← Table.corners.fetch around.corners code
    let size ← Table.sizes.fetch m.sizes code
    let places := places.insert code ⟨x + corner.1, y + corner.2, size.1, size.2⟩
    match m.insides.get? code with
    | none => pure places
    | some inside =>
      let e ← Table.elements.fetch d.elements code
      let box ← Table.places.fetch places code
      let way ← enter way code
      e.contents.members.foldlM
        (placeBy d m n way inside (box.x + (box.width - inside.width) / 2)
          (box.y + compositeHeader + padding)) places

/-- An element and those in it, as far as they are composite states, with their places. -/
def compositesBy (d : Diagram) (m : Measures) (places : Keyed Box) :
    Nat → List String → String → Except Stop (List Placed)
  | 0, _, _ => .error .depth
  | n + 1, way, code => do
    let e ← Table.elements.fetch d.elements code
    if e.isComposite then
      let box ← Table.places.fetch places code
      let inside ← Table.insides.fetch m.insides code
      let way ← enter way code
      let members ← e.contents.members.mapM (compositesBy d m places n way)
      pure (⟨e, box, inside.separators.map (box.y + compositeHeader + padding + ·)⟩ ::
        members.flatten)
    else pure []

/-- An element and those in it, as far as they are not composite states, with their places. -/
def leavesBy (d : Diagram) (places : Keyed Box) :
    Nat → List String → String → Except Stop (List Placed)
  | 0, _, _ => .error .depth
  | n + 1, way, code => do
    let e ← Table.elements.fetch d.elements code
    if e.isComposite then
      let way ← enter way code
      let members ← e.contents.members.mapM (leavesBy d places n way)
      pure members.flatten
    else
      let box ← Table.places.fetch places code
      pure [⟨e, box, []⟩]

end Diagram

/-- Where everything lies, in the order in which it is drawn. -/
structure TableLayout where
  composites : List Placed
  leaves : List Placed
  places : Keyed Box
  /-- The width of all elements together. -/
  width : Rat

namespace Diagram

/-- The layout with the given corner.  The number of elements bounds how many are nested. -/
def layoutByTables (d : Diagram) (x y : Rat) : Except Stop TableLayout := do
  let n := d.elements.entries.length
  let (m, all) ← d.layoutBy (d.measureBy n []) d.roots {}
  let places ← d.roots.foldlM (d.placeBy m n [] all x y) Keyed.empty
  let composites ← d.roots.mapM (d.compositesBy m places n [])
  let leaves ← d.roots.mapM (d.leavesBy places n [])
  pure { composites := composites.flatten, leaves := leaves.flatten, places := places,
         width := all.width }

/-- The upper side of what is below the title. -/
def top (d : Diagram) : Rat :=
  if (d.title.filter fun t => !t.isEmpty).isSome then margin + 30 else margin

/-- Draws a diagram with a layout. -/
def sketchBy (d : Diagram) (l : TableLayout) : Sketch Unit := do
  let _ ← d.drawTitle
  let cells ← drawComposites Keyed.empty l.composites
  let cells ← drawLeaves cells l.leaves
  drawNotes l.places d.transitions cells (margin + l.width + Axis.gapX, margin) d.notes
  drawTransitions cells d.transitions

/-- The cells that draw a diagram in the given parent. -/
def drawByTables (d : Diagram) (parent : String) : Except Stop (List Cell) := do
  let l ← d.layoutByTables margin d.top
  pure ((d.sketchBy l).cells parent)

end Diagram

/-! ## Checks that succeed -/

lemma Table.fetch_eq_ok {α : Type} (name : Table) {t : Keyed α} {code : String} {a : α}
    (h : t.get? code = some a) : name.fetch t code = .ok a := by
  rw [Table.fetch, h]

lemma enter_eq_ok {way : List String} {code : String} (h : code ∉ way) :
    enter way code = .ok (code :: way) := by
  rw [enter, if_neg (by simpa using h)]

namespace Diagram

variable {d : Diagram} {members seen : List String} {code : String}

/-! ### The way outwards -/

/-- On a ring that none of the members lies on, no member is found. -/
lemma holderWithin_eq_none
    (hseen : ∀ c ∈ seen, members.contains c = false ∧ ∀ p, d.parent? c = some p → p ∈ seen)
    (n : Nat) (hcode : code ∈ seen) : d.holderWithin members n code = none := by
  induction n generalizing code with
  | zero => rfl
  | succ n ih =>
    obtain ⟨hmember, hparent⟩ := hseen code hcode
    rw [holderWithin, hmember, if_neg Bool.false_ne_true, Option.bind_eq_none_iff]
    exact fun p hp => ih (hparent p hp)

/-- The elements that the way outwards came from are different elements of the table, so it ends
before the bound is used up. -/
theorem climb_eq_ok {n : Nat} (hlength : d.elements.entries.length < n + seen.length)
    (hnodup : seen.Nodup) (hkeys : seen ⊆ d.elements.keys)
    (hseen : ∀ c ∈ seen, members.contains c = false ∧
      ∀ p, d.parent? c = some p → p = code ∨ p ∈ seen) :
    d.climb members n seen code = .ok (d.holderWithin members n code) := by
  induction n generalizing seen code with
  | zero =>
    have hle := (hnodup.subperm hkeys).length_le
    rw [Keyed.keys, List.length_map] at hle
    omega
  | succ n ih =>
    rw [climb]
    by_cases hring : code ∈ seen
    · rw [if_pos (by simpa using hring), holderWithin_eq_none (fun c hc => ?_) _ hring]
      · rfl
      · refine ⟨(hseen c hc).1, fun p hp => ?_⟩
        rcases (hseen c hc).2 p hp with rfl | hmem
        · exact hring
        · exact hmem
    · rw [if_neg (by simpa using hring), holderWithin]
      by_cases hmember : members.contains code = true
      · rw [if_pos hmember, if_pos hmember]
        rfl
      · rw [if_neg hmember, if_neg hmember]
        cases hparent : (d.elements.get? code).bind Element.parent with
        | none => rfl
        | some p =>
          refine ih (by rw [List.length_cons]; omega) (List.nodup_cons.2 ⟨hring, hnodup⟩)
            (List.cons_subset.2 ⟨mem_keys_of_parent? hparent, hkeys⟩) ?_
          intro c hc
          rcases List.mem_cons.1 hc with rfl | hc
          · refine ⟨by simpa using hmember, fun p' hp' => .inl ?_⟩
            exact Option.some.inj (hp'.symm.trans hparent)
          · refine ⟨(hseen c hc).1, fun p' hp' => .inr ?_⟩
            rcases (hseen c hc).2 p' hp' with rfl | hmem
            · exact List.mem_cons_self
            · exact List.mem_cons_of_mem code hmem

lemma linksBy_eq_ok (d : Diagram) (members : List String) :
    d.linksBy members = .ok (d.linksAmong members) := by
  have hclimb : ∀ code, d.climb members (d.elements.entries.length + 1) [] code =
      .ok (d.holder members code) := fun code =>
    climb_eq_ok (Nat.lt_succ_self _) List.nodup_nil (List.nil_subset _) fun _ hc => nomatch hc
  unfold linksBy
  dsimp only
  rw [Fault.mapM_eq_ok (g := fun t => (d.holder members t.source, d.holder members t.target))]
  · refine congrArg Except.ok ?_
    rw [List.filterMap_map]
    rfl
  · intro t _
    rw [hclimb, hclimb]
    rfl

/-! ### Sizes without a bound for the depth -/

/-- An element with its size and those in it. -/
def part (d : Diagram) (e : Element) : Part :=
  d.measureElement d.elements.entries.length e

/-- The elements of a list with their sizes and those in them. -/
def parts (d : Diagram) (codes : List String) : List Part :=
  d.measure (d.elements.entries.length + 1) codes

/-- How the elements in a composite state lie to each other. -/
def inside (d : Diagram) : Contents → Arrangement
  | .direct members _ => d.arrange (d.parts members)
  | .concurrent first middle last =>
    Arrangement.stack ((first :: middle ++ [last]).map fun region =>
      (d.parts region.members, d.arrange (d.parts region.members)))

lemma parts_eq (d : Diagram) (codes : List String) :
    d.parts codes = (codes.filterMap d.elements.get?).map d.part := rfl

lemma parts_append (d : Diagram) (codes codes' : List String) :
    d.parts (codes ++ codes') = d.parts codes ++ d.parts codes' := by
  rw [parts_eq, List.filterMap_append, List.map_append]
  rfl

lemma parts_flatMap (d : Diagram) (regions : List Region) :
    d.parts (regions.flatMap Region.members) =
      (regions.map fun region => d.parts region.members).flatten := by
  induction regions with
  | nil => rfl
  | cons region rest ih =>
    rw [List.flatMap_cons, parts_append, ih, List.map_cons, List.flatten_cons]

variable {e : Element}

/-- Nothing is left out of a list of elements of the table. -/
lemma map_code_parts (hd : d.Consistent) {codes : List String} (h : codes ⊆ d.elements.keys) :
    (d.parts codes).map Part.code = codes := by
  rw [parts, map_code_measure hd, List.filter_eq_self]
  exact fun code hcode => Keyed.contains_iff.2 (h hcode)

/-- Two bounds give one size if both reach beyond the depth of everything in an element. -/
lemma measureElement_congr (hd : d.Consistent) {n n' : Nat} {ps : List String}
    (he : d.elements.get? e.code = some e) (hps : Ladder d.parent? e.code ps)
    (hn : d.elements.entries.length ≤ n + ps.length)
    (hn' : d.elements.entries.length ≤ n' + ps.length) :
    d.measureElement n e = d.measureElement n' e := by
  have hlength := fun {c : String} {ps : List String} (hps : Ladder d.parent? c ps) =>
    hps.length_lt hd
  induction n generalizing n' ps e with
  | zero =>
    have := hlength hps (Keyed.mem_keys_iff.2 ⟨e, he⟩)
    omega
  | succ n ih =>
    have := hlength hps (Keyed.mem_keys_iff.2 ⟨e, he⟩)
    obtain ⟨n', rfl⟩ := Nat.exists_eq_succ_of_ne_zero (n := n') (by omega)
    have hmembers : ∀ codes, codes ⊆ e.contents.members →
        d.measure (n + 1) codes = d.measure (n' + 1) codes := by
      intro codes hcodes
      rw [measure_succ, measure_succ]
      refine List.map_congr_left fun f hf => ?_
      obtain ⟨c, hc, hget⟩ := List.mem_filterMap.1 hf
      obtain rfl := hd.code c f hget
      have hparent : d.parent? f.code = some e.code := by
        rw [← hd.mem_iff, membersOf_of_get? he]
        exact hcodes hc
      exact ih hget (.step hparent hps) (by rw [List.length_cons]; omega)
        (by rw [List.length_cons]; omega)
    unfold measureElement
    split
    · split
      · next members ts hcontents =>
        rw [hmembers members (by rw [hcontents]; exact List.Subset.refl _)]
      · next first middle last hcontents =>
        have hregions : (first :: middle ++ [last]).map (fun r => d.measure (n + 1) r.members) =
            (first :: middle ++ [last]).map fun r => d.measure (n' + 1) r.members := by
          refine List.map_congr_left fun r hr => hmembers _ fun c hc => ?_
          rw [hcontents]
          exact List.mem_flatMap.2 ⟨r, hr, hc⟩
        simp only [hregions]
    · rfl

/-- What is in an element has the size that it has elsewhere. -/
lemma measure_members (hd : d.Consistent) (he : d.elements.get? e.code = some e)
    (hrooted : Rooted d.parent? e.code) {codes : List String}
    (hcodes : codes ⊆ e.contents.members) :
    d.measure d.elements.entries.length codes = d.parts codes := by
  obtain ⟨ps, hps⟩ := exists_ladder hrooted
  have hlength := hps.length_lt hd (Keyed.mem_keys_iff.2 ⟨e, he⟩)
  obtain ⟨n, hn⟩ := Nat.exists_eq_succ_of_ne_zero (n := d.elements.entries.length) (by omega)
  rw [hn, measure_succ, parts_eq]
  refine List.map_congr_left fun f hf => ?_
  obtain ⟨c, hc, hget⟩ := List.mem_filterMap.1 hf
  obtain rfl := hd.code c f hget
  have hparent : d.parent? f.code = some e.code := by
    rw [← hd.mem_iff, membersOf_of_get? he]
    exact hcodes hc
  exact measureElement_congr hd hget (.step hparent hps) (by rw [List.length_cons]; omega)
    (Nat.le_add_right _ _)

/-- The size of an element by the sizes of those in it. -/
theorem part_eq (hd : d.Consistent) (he : d.elements.get? e.code = some e)
    (hrooted : Rooted d.parent? e.code) :
    d.part e = if e.isComposite then
        enclose e (d.inside e.contents) (d.parts e.contents.members)
      else .node e e.leafSize.1 e.leafSize.2 {} [] := by
  have hmembers : ∀ {codes : List String}, codes ⊆ e.contents.members →
      d.measure d.elements.entries.length codes = d.parts codes := fun hcodes =>
    measure_members hd he hrooted hcodes
  unfold part measureElement
  split
  · split
    · next members ts hcontents =>
      rw [hmembers (by rw [hcontents]; exact List.Subset.refl _), hcontents]
      rfl
    · next first middle last hcontents =>
      have hregions : (first :: middle ++ [last]).map (fun r =>
            d.measure d.elements.entries.length r.members) =
          (first :: middle ++ [last]).map fun r => d.parts r.members := by
        refine List.map_congr_left fun r hr => hmembers fun c hc => ?_
        rw [hcontents]
        exact List.mem_flatMap.2 ⟨r, hr, hc⟩
      rw [hcontents, Contents.members, parts_flatMap]
      simp only [hregions, inside, List.map_map]
      rfl
  · rfl

end Diagram

/-! ### Arrangements by a table of sizes -/

/-- What is known of an element to those around it. -/
def Part.outlined (p : Part) : Part :=
  .outline p.code (p.width, p.height)

namespace Axis

variable (a : Axis)

lemma depth_map_outlined (layer : List Part) :
    a.depth (layer.map Part.outlined) = a.depth layer := by
  rw [depth, List.map_map]
  rfl

lemma breadth_map_outlined (layer : List Part) :
    a.breadth (layer.map Part.outlined) = a.breadth layer := by
  rw [breadth, List.map_map, List.length_map]
  rfl

lemma placeLayer_map_outlined (start depth next : Rat) (corners : Keyed (Rat × Rat))
    (layer : List Part) :
    a.placeLayer start depth next corners (layer.map Part.outlined) =
      a.placeLayer start depth next corners layer := by
  induction layer generalizing next corners with
  | nil => rfl
  | cons p rest ih => exact ih _ _

lemma placeLayers_map_outlined (breadth start : Rat) (corners : Keyed (Rat × Rat))
    (layers : List (List Part)) :
    a.placeLayers breadth start corners (layers.map (List.map Part.outlined)) =
      a.placeLayers breadth start corners layers := by
  induction layers generalizing start corners with
  | nil => rfl
  | cons layer rest ih =>
    rw [List.map_cons, placeLayers, placeLayers, ih, depth_map_outlined, breadth_map_outlined,
      placeLayer_map_outlined]

lemma arrangeLayers_map_outlined (layers : List (List Part)) :
    a.arrangeLayers (layers.map (List.map Part.outlined)) = a.arrangeLayers layers := by
  have hbreadth : (layers.map (List.map Part.outlined)).map a.breadth = layers.map a.breadth := by
    rw [List.map_map]
    exact List.map_congr_left fun layer _ => a.breadth_map_outlined layer
  simp only [arrangeLayers, hbreadth, placeLayers_map_outlined]

lemma arrange_eq_arrangeLayers (links : List (String × String)) {ps : List Part} (h : ps ≠ []) :
    a.arrange links ps =
      a.arrangeLayers ((Layering.layers (ps.map Part.code) links).map fun layer =>
        layer.filterMap (Keyed.ofList (ps.map fun p => (p.code, p))).get?) := by
  rw [arrange, if_neg (by simpa using h)]
  rfl

end Axis

/-- The table has the sizes of some elements. -/
def HasSizes (sizes : Keyed (Rat × Rat)) (ps : List Part) : Prop :=
  ∀ p ∈ ps, sizes.get? p.code = some (p.width, p.height)

namespace Diagram

variable {d : Diagram} {sizes : Keyed (Rat × Rat)}

/-- The elements of layers are found in a table of sizes and in one of elements. -/
lemma outlinesBy_eq_ok {table : Keyed Part} {layers : List (List String)}
    (h : ∀ layer ∈ layers, ∀ code ∈ layer, ∃ p, table.get? code = some p ∧ p.code = code ∧
      sizes.get? code = some (p.width, p.height)) :
    outlinesBy sizes layers =
      .ok ((layers.map fun layer => layer.filterMap table.get?).map (List.map Part.outlined)) := by
  rw [List.map_map]
  refine Fault.mapM_eq_ok fun layer hlayer => ?_
  have hall := h layer hlayer
  clear hlayer h
  rw [Function.comp_apply]
  induction layer with
  | nil => rfl
  | cons code rest ih =>
    obtain ⟨⟨p, hp, rfl, hsize⟩, hrest⟩ := List.forall_mem_cons.1 hall
    rw [List.mapM_cons, ih hrest, Table.fetch_eq_ok _ hsize, List.filterMap_cons_some hp]
    rfl

/-- Elements are arranged alike by the table of their sizes. -/
theorem arrangeBy_eq_ok (hd : d.Consistent) {codes : List String} (hcodes : codes ⊆ d.elements.keys)
    (hsizes : HasSizes sizes (d.parts codes)) :
    d.arrangeBy sizes codes = .ok (d.arrange (d.parts codes)) := by
  have hmap := map_code_parts hd hcodes
  rw [arrangeBy, arrange, hmap]
  cases hempty : codes.isEmpty with
  | true =>
    obtain rfl := List.isEmpty_iff.1 hempty
    rfl
  | false =>
    have hne : d.parts codes ≠ [] := by
      intro hnil
      rw [hnil] at hmap
      rw [← hmap] at hempty
      cases hempty
    have houtlines : outlinesBy sizes (Layering.layers codes (d.linksAmong codes)) =
        .ok (((Layering.layers codes (d.linksAmong codes)).map fun layer => layer.filterMap
          (Keyed.ofList ((d.parts codes).map fun p => (p.code, p))).get?).map
            (List.map Part.outlined)) := by
      refine outlinesBy_eq_ok fun layer hlayer code hcode => ?_
      have hmem : code ∈ codes :=
        Layering.mem_flatten_layers.1 (List.mem_flatten.2 ⟨layer, hlayer, hcode⟩)
      have hkey : code ∈ (Keyed.ofList ((d.parts codes).map fun p => (p.code, p))).keys := by
        rw [Keyed.mem_keys_ofList, List.map_map]
        rw [← hmap] at hmem
        exact hmem
      obtain ⟨p, hp⟩ := Keyed.mem_keys_iff.1 hkey
      obtain ⟨rfl, hpart⟩ := Part.of_get?_ofList_code hp
      exact ⟨p, hp, rfl, hsizes p hpart⟩
    rw [if_neg Bool.false_ne_true, linksBy_eq_ok, Axis.arrange_eq_arrangeLayers _ _ hne, hmap,
      ← Axis.arrangeLayers_map_outlined]
    rw [Fault.ok_bind, houtlines]
    rfl

end Diagram

namespace Arrangement

variable {a inner : Arrangement} {ps : List Part} {sizes : Keyed (Rat × Rat)} {key : String}

lemma mem_keys_below :
    key ∈ (a.below inner).corners.keys ↔ key ∈ a.corners.keys ∨ key ∈ inner.corners.keys := by
  rw [corners_below, Keyed.mem_keys_enter, List.map_map]
  rfl

lemma mem_keys_foldl_below (rest : List (List Part × Arrangement)) :
    key ∈ (rest.foldl (fun a r => a.below r.2) a).corners.keys ↔
      key ∈ a.corners.keys ∨ ∃ r ∈ rest, key ∈ r.2.corners.keys := by
  induction rest generalizing a with
  | nil => simp
  | cons r rest ih =>
    rw [List.foldl_cons, ih, mem_keys_below, List.exists_mem_cons_iff, or_assoc]

lemma keys_center (a : Arrangement) (ps : List Part) :
    (a.center ps).corners.keys = a.corners.keys := by
  unfold center
  dsimp only
  generalize (a.width - _) / 2 = shift
  generalize a.corners = corners
  induction ps generalizing corners with
  | nil => rfl
  | cons p rest ih => rw [List.foldl_cons, ih, Keyed.keys_modify]

lemma keys_foldl_center (a : Arrangement) (regions : List (List Part)) :
    (regions.foldl center a).corners.keys = a.corners.keys := by
  induction regions generalizing a with
  | nil => rfl
  | cons ps rest ih => rw [List.foldl_cons, ih, keys_center]

lemma mem_keys_stack {regions : List (List Part × Arrangement)} :
    key ∈ (stack regions).corners.keys ↔ ∃ r ∈ regions, key ∈ r.2.corners.keys := by
  cases regions with
  | nil => simp [stack]
  | cons first rest =>
    rw [stack, keys_foldl_center, mem_keys_foldl_below, List.exists_mem_cons_iff]

/-- The corners of elements are changed one by one. -/
lemma moveBy_eq_ok (shift : Rat) {t : Keyed (Rat × Rat)} {codes : List String}
    (h : codes ⊆ t.keys) :
    moveBy shift codes t =
      .ok (codes.foldl (fun t code => t.modify code fun (dx, dy) => (dx + shift, dy)) t) := by
  induction codes generalizing t with
  | nil => rfl
  | cons code rest ih =>
    obtain ⟨hcode, hrest⟩ := List.cons_subset.1 h
    obtain ⟨c, hc⟩ := Keyed.mem_keys_iff.1 hcode
    rw [moveBy, List.foldlM_cons, List.foldl_cons, Table.fetch_eq_ok _ hc,
      ← ih (by simpa using hrest), ← Keyed.insert_eq_modify hc]
    rfl

/-- Some elements are moved together by the table of their sizes. -/
lemma centerBy_eq_ok (hkeys : ∀ p ∈ ps, p.code ∈ a.corners.keys) (hsizes : HasSizes sizes ps) :
    centerBy sizes a (ps.map Part.code) = .ok (a.center ps) := by
  have hrights : ((ps.map Part.code).mapM fun code => do
        let corner ← Table.corners.fetch a.corners code
        let size ← Table.sizes.fetch sizes code
        pure (corner.1 + size.1)) =
      .ok (ps.map fun p => ((a.corners.get? p.code).getD (0, 0)).1 + p.width) := by
    induction ps with
    | nil => rfl
    | cons p rest ih =>
      obtain ⟨hp, hrest⟩ := List.forall_mem_cons.1 hkeys
      obtain ⟨hsize, hothers⟩ := List.forall_mem_cons.1 hsizes
      obtain ⟨c, hc⟩ := Keyed.mem_keys_iff.1 hp
      rw [List.map_cons, List.mapM_cons, ih hrest hothers, Table.fetch_eq_ok _ hc,
        Table.fetch_eq_ok _ hsize, List.map_cons, hc]
      rfl
  have hcodes : ps.map Part.code ⊆ a.corners.keys := by
    intro code hcode
    obtain ⟨p, hp, rfl⟩ := List.mem_map.1 hcode
    exact hkeys p hp
  rw [centerBy, hrights]
  rw [Fault.ok_bind, moveBy_eq_ok _ hcodes, List.foldl_map]
  rfl

/-- Regions are put below each other by the table of the sizes of their elements. -/
theorem stackBy_eq_ok (sizes : Keyed (Rat × Rat)) {regions : List (List Part × Arrangement)}
    (hkeys : ∀ r ∈ regions, ∀ p ∈ r.1, p.code ∈ r.2.corners.keys)
    (hsizes : ∀ r ∈ regions, HasSizes sizes r.1) :
    stackBy sizes (regions.map fun r => (r.1.map Part.code, r.2)) = .ok (stack regions) := by
  cases regions with
  | nil => rfl
  | cons first rest =>
    have hcenter : ∀ (lists : List (List Part)) (a : Arrangement),
        (∀ ps ∈ lists, (∀ p ∈ ps, p.code ∈ a.corners.keys) ∧ HasSizes sizes ps) →
        (lists.map (List.map Part.code)).foldlM (centerBy sizes) a =
          .ok (lists.foldl center a) := by
      intro lists
      induction lists with
      | nil => exact fun _ _ => rfl
      | cons ps lists ih =>
        intro a h
        obtain ⟨⟨hps, hsize⟩, hrest⟩ := List.forall_mem_cons.1 h
        rw [List.map_cons, List.foldlM_cons, centerBy_eq_ok hps hsize, List.foldl_cons,
          ← ih (a.center ps) (by simpa only [keys_center] using hrest)]
        rfl
    have hlists : (first.1 :: rest.map Prod.fst).map (List.map Part.code) =
        first.1.map Part.code :: (rest.map fun r => (r.1.map Part.code, r.2)).map Prod.fst := by
      rw [List.map_cons, List.map_map, List.map_map]
      rfl
    rw [List.map_cons, stackBy, stack, ← hlists, List.foldl_map]
    refine hcenter _ _ fun ps hps => ?_
    rw [← List.map_cons, List.mem_map] at hps
    obtain ⟨r, hr, rfl⟩ := hps
    refine ⟨fun p hp => (mem_keys_foldl_below rest).2 ?_, hsizes r hr⟩
    rcases List.mem_cons.1 hr with rfl | hr
    · exact .inl (hkeys _ List.mem_cons_self p hp)
    · exact .inr ⟨r, hr, hkeys r (List.mem_cons_of_mem first hr) p hp⟩

end Arrangement
end State
end UmlDraw
