/-
# Drawing with tables

A walk through the composite states comes to an element by way of those around it.  No element is
around itself, so these are different elements of the table, and a step into a further one is
possible as long as there is an element in it.  The first walk enters the size of everything in an
element, and the arrangement inside of everything in it that is composite.

After the elements were measured, they are placed, and then the composite states are drawn, and then
the other elements.  An element that stands in two regions is met twice, but with one size and at
one place, so that the table of places says of each meeting where it is.

The main statements are

* `Diagram.At.exists_succ` and `Diagram.At.member`: the bound for the depth is never used up;
* `Diagram.measureBy_eq_ok`: measuring an element never fails, and what it leaves in the tables;
* `Diagram.placeBy_eq_ok`, `Diagram.compositesBy_eq_ok` and `Diagram.leavesBy_eq_ok`: what the walks
  give;
* `Diagram.Stands.unique`: an element stands at one place;
* `Diagram.drawByTables_read`: for every text, no check of a layout with tables fails, and the
  drawing is the same.
-/
import UmlDraw.Proofs.State.Repeated
import UmlDraw.Proofs.State.Tables

namespace UmlDraw
namespace State

/-! ### Walks -/

namespace Diagram

variable {d : Diagram} {e : Element} {n : Nat} {way : List String} {code c : String}

/-- A walk has come to an element by way of the composite states around it, and its bound is lowered
by their number. -/
structure At (d : Diagram) (n : Nat) (way : List String) (e : Element) : Prop where
  element : d.elements.get? e.code = some e
  ladder : Ladder d.parent? e.code way
  bound : n + way.length = d.elements.entries.length

lemma At.exists_succ (hd : d.Consistent) (h : d.At n way e) : ∃ k, n = k + 1 := by
  have hlength := h.ladder.length_lt hd (Keyed.mem_keys_iff.2 ⟨e, h.element⟩)
  have hbound := h.bound
  exact Nat.exists_eq_succ_of_ne_zero (by omega)

lemma At.enter (h : d.At n way e) : enter way e.code = .ok (e.code :: way) :=
  enter_eq_ok (List.nodup_cons.1 h.ladder.nodup).1

lemma At.root (hd : d.Consistent) (hc : c ∈ d.roots) :
    ∃ f, d.elements.get? c = some f ∧ d.At d.elements.entries.length [] f := by
  obtain ⟨hkey, hparent⟩ := mem_roots_iff.1 hc
  obtain ⟨f, hf⟩ := Keyed.mem_keys_iff.1 hkey
  obtain rfl := hd.code c f hf
  exact ⟨f, hf, hf, .top hparent, rfl⟩

lemma parent?_of_mem_members (hd : d.Consistent) (he : d.elements.get? e.code = some e) :
    c ∈ e.contents.members ↔ d.parent? c = some e.code := by
  rw [← hd.mem_iff, membersOf_of_get? he]

lemma members_subset_keys (hd : d.Consistent) (he : d.elements.get? e.code = some e) :
    e.contents.members ⊆ d.elements.keys :=
  fun _ hc => mem_keys_of_parent? ((parent?_of_mem_members hd he).1 hc)

lemma At.member (hd : d.Consistent) (h : d.At (n + 1) way e) (hc : c ∈ e.contents.members) :
    ∃ f, d.elements.get? c = some f ∧ d.At n (e.code :: way) f := by
  obtain ⟨f, hf⟩ := Keyed.mem_keys_iff.1 (members_subset_keys hd h.element hc)
  obtain rfl := hd.code c f hf
  have hbound := h.bound
  refine ⟨f, hf, hf, .step ((parent?_of_mem_members hd h.element).1 hc) h.ladder, ?_⟩
  rw [List.length_cons]
  omega

/-! ### Measuring -/

/-- What the tables of measures say is true of the elements. -/
structure Known (d : Diagram) (m : Measures) : Prop where
  sizes : ∀ code s, m.sizes.get? code = some s →
    ∃ e, d.elements.get? code = some e ∧ s = ((d.part e).width, (d.part e).height)
  insides : ∀ code a, m.insides.get? code = some a →
    ∃ e, d.elements.get? code = some e ∧ e.isComposite = true ∧ a = d.inside e.contents

/-- An element was measured, with everything in it. -/
def Covers (d : Diagram) (m : Measures) (code : String) : Prop :=
  ∀ e, d.elements.get? e.code = some e → Inside d.parent? e.code code →
    e.code ∈ m.sizes.keys ∧ (e.isComposite = true → e.code ∈ m.insides.keys)

/-- Some elements were measured with everything in them, and nothing was forgotten. -/
structure Measured (d : Diagram) (m m' : Measures) (codes : List String) : Prop where
  known : d.Known m'
  sizes : m.sizes.keys ⊆ m'.sizes.keys
  insides : m.insides.keys ⊆ m'.insides.keys
  covers : ∀ code ∈ codes, d.Covers m' code

variable {m m' m'' : Measures} {codes codes' : List String}

lemma Covers.grow (h : d.Covers m code) (hsizes : m.sizes.keys ⊆ m'.sizes.keys)
    (hinsides : m.insides.keys ⊆ m'.insides.keys) : d.Covers m' code := by
  intro e he hinside
  obtain ⟨hsize, harrangement⟩ := h e he hinside
  exact ⟨hsizes hsize, fun hcomposite => hinsides (harrangement hcomposite)⟩

lemma Covers.member (hd : d.Consistent) (he : d.elements.get? e.code = some e)
    (h : d.Covers m e.code) (hc : c ∈ e.contents.members) : d.Covers m c :=
  fun f hf hinside => h f hf (hinside.tail ((parent?_of_mem_members hd he).1 hc))

lemma Measured.trans (h : d.Measured m m' codes) (h' : d.Measured m' m'' codes') :
    d.Measured m m'' (codes ++ codes') where
  known := h'.known
  sizes := List.Subset.trans h.sizes h'.sizes
  insides := List.Subset.trans h.insides h'.insides
  covers := List.forall_mem_append.2
    ⟨fun code hcode => (h.covers code hcode).grow h'.sizes h'.insides, h'.covers⟩

lemma Known.measured (h : d.Known m) : d.Measured m m [] :=
  ⟨h, List.Subset.refl _, List.Subset.refl _, fun _ hc => nomatch hc⟩

lemma Known.hasSizes (hd : d.Consistent) (h : d.Known m)
    (hcovers : ∀ code ∈ codes, d.Covers m code) : HasSizes m.sizes (d.parts codes) := by
  intro p hp
  obtain ⟨f, hf, rfl⟩ := List.mem_map.1 hp
  obtain ⟨code, hcode, hget⟩ := List.mem_filterMap.1 hf
  obtain rfl := hd.code code f hget
  obtain ⟨s, hs⟩ := Keyed.mem_keys_iff.1 (hcovers f.code hcode f hget .refl).1
  obtain ⟨f', hf', rfl⟩ := h.sizes f.code s hs
  obtain rfl := Option.some.inj (hget.symm.trans hf')
  exact (congrArg m.sizes.get? (code_measureElement d _ f)).trans hs

section

variable {measure : String → Measures → Except Stop Measures}

/-- Each element of a list can be measured. -/
def CanMeasure (d : Diagram) (measure : String → Measures → Except Stop Measures)
    (codes : List String) : Prop :=
  ∀ code ∈ codes, ∀ m, d.Known m → ∃ m', measure code m = .ok m' ∧ d.Measured m m' [code]

lemma CanMeasure.foldlM (h : d.CanMeasure measure codes) (hm : d.Known m) :
    ∃ m', codes.foldlM (fun m code => measure code m) m = .ok m' ∧ d.Measured m m' codes := by
  induction codes generalizing m with
  | nil => exact ⟨m, rfl, hm.measured⟩
  | cons code rest ih =>
    obtain ⟨hcode, hrest⟩ := List.forall_mem_cons.1 h
    obtain ⟨m₁, hmeasure, hmeasured⟩ := hcode m hm
    obtain ⟨m₂, hfold, hothers⟩ := ih hrest hmeasured.known
    refine ⟨m₂, ?_, hmeasured.trans hothers⟩
    rw [List.foldlM_cons, hmeasure]
    exact hfold

lemma layoutBy_eq_ok (hd : d.Consistent) (hcodes : codes ⊆ d.elements.keys)
    (h : d.CanMeasure measure codes) (hm : d.Known m) :
    ∃ m', d.layoutBy measure codes m = .ok (m', d.arrange (d.parts codes)) ∧
      d.Measured m m' codes := by
  obtain ⟨m', hfold, hmeasured⟩ := h.foldlM hm
  refine ⟨m', ?_, hmeasured⟩
  have harrange := arrangeBy_eq_ok hd hcodes (hmeasured.known.hasSizes hd hmeasured.covers)
  unfold layoutBy
  rw [hfold, Fault.ok_bind, harrange]
  rfl

lemma layoutsBy_eq_ok (hd : d.Consistent) {regions : List Region}
    (hcodes : regions.flatMap Region.members ⊆ d.elements.keys)
    (h : d.CanMeasure measure (regions.flatMap Region.members)) (hm : d.Known m) :
    ∃ m', d.layoutsBy measure regions m = .ok (m', regions.map fun region =>
        (region.members, d.arrange (d.parts region.members))) ∧
      d.Measured m m' (regions.flatMap Region.members) := by
  induction regions generalizing m with
  | nil => exact ⟨m, rfl, hm.measured⟩
  | cons region rest ih =>
    rw [List.flatMap_cons] at hcodes h ⊢
    obtain ⟨hfirst, hothers⟩ := List.append_subset.1 hcodes
    obtain ⟨hregion, hrest⟩ := List.forall_mem_append.1 h
    obtain ⟨m₁, hlayout, hmeasured⟩ := layoutBy_eq_ok hd hfirst hregion hm
    obtain ⟨m₂, hlayouts, hmeasured'⟩ := ih hothers hrest hmeasured.known
    refine ⟨m₂, ?_, hmeasured.trans hmeasured'⟩
    rw [layoutsBy, hlayout, Fault.ok_bind]
    dsimp only
    rw [hlayouts]
    rfl

end

/-- An arrangement has a corner for each of its elements. -/
lemma mem_keys_arrange (hd : d.Consistent) (hdistinct : d.IsDistinct)
    (hcodes : codes ⊆ d.elements.keys) (hc : c ∈ codes) :
    c ∈ (d.arrange (d.parts codes)).corners.keys := by
  have hholds : (d.arrange (d.parts codes)).Holds (d.parts codes) :=
    Axis.holds_arrange _ _ fun p hp => (isRoomy_measure hd hdistinct _ codes p hp).isProper
  rw [← map_code_parts hd hcodes] at hc
  obtain ⟨p, hp, rfl⟩ := List.mem_map.1 hc
  exact hholds.keys p hp

lemma mem_keys_inside (hd : d.Consistent) (hdistinct : d.IsDistinct) {cs : Contents}
    (hcs : cs.members ⊆ d.elements.keys) (hc : c ∈ cs.members) :
    c ∈ (d.inside cs).corners.keys := by
  cases cs with
  | direct members ts => exact mem_keys_arrange hd hdistinct hcs hc
  | concurrent first middle last =>
    obtain ⟨region, hregion, hc⟩ := List.mem_flatMap.1 hc
    refine Arrangement.mem_keys_stack.2 ⟨_, List.mem_map_of_mem hregion, ?_⟩
    exact mem_keys_arrange hd hdistinct
      (fun c hc => hcs (List.mem_flatMap.2 ⟨region, hregion, hc⟩)) hc

lemma insideBy_eq_ok (hd : d.Consistent) (hdistinct : d.IsDistinct) {cs : Contents}
    {measure : String → Measures → Except Stop Measures} (hcs : cs.members ⊆ d.elements.keys)
    (h : d.CanMeasure measure cs.members) (hm : d.Known m) :
    ∃ m', d.insideBy measure cs m = .ok (m', d.inside cs) ∧ d.Measured m m' cs.members := by
  cases cs with
  | direct members ts => exact layoutBy_eq_ok hd hcs h hm
  | concurrent first middle last =>
    obtain ⟨m', hlayouts, hmeasured⟩ := layoutsBy_eq_ok hd hcs h hm
    refine ⟨m', ?_, hmeasured⟩
    have hsub : ∀ region ∈ first :: middle ++ [last],
        region.members ⊆ (first :: middle ++ [last]).flatMap Region.members :=
      fun region hregion c hc => List.mem_flatMap.2 ⟨region, hregion, hc⟩
    have hstack : stackBy m'.sizes ((first :: middle ++ [last]).map fun region =>
        (region.members, d.arrange (d.parts region.members))) =
          .ok (d.inside (.concurrent first middle last)) := by
      rw [inside, ← Arrangement.stackBy_eq_ok m'.sizes, List.map_map]
      · refine congrArg (stackBy _) (List.map_congr_left fun region hregion => ?_)
        rw [Function.comp_apply, map_code_parts hd (List.Subset.trans (hsub region hregion) hcs)]
      · intro r hr p hp
        obtain ⟨region, hregion, rfl⟩ := List.mem_map.1 hr
        have hkeys := List.Subset.trans (hsub region hregion) hcs
        refine mem_keys_arrange hd hdistinct hkeys ?_
        rw [← map_code_parts hd hkeys]
        exact List.mem_map_of_mem hp
      · intro r hr
        obtain ⟨region, hregion, rfl⟩ := List.mem_map.1 hr
        exact hmeasured.known.hasSizes hd fun c hc => hmeasured.covers c (hsub region hregion hc)
    unfold insideBy
    dsimp only
    rw [hlayouts, Fault.ok_bind]
    dsimp only
    rw [hstack]
    rfl

lemma Known.enterSize (hm : d.Known m) (he : d.elements.get? e.code = some e) :
    d.Known (m.enterSize e.code ((d.part e).width, (d.part e).height)) where
  sizes := by
    intro code s hs
    rw [Measures.enterSize, Keyed.get?_insert] at hs
    split at hs
    · next hcode => exact ⟨e, hcode ▸ he, (Option.some.inj hs).symm⟩
    · exact hm.sizes code s hs
  insides := hm.insides

lemma Known.enterInside (hm : d.Known m) (he : d.elements.get? e.code = some e)
    (hcomposite : e.isComposite = true) :
    d.Known (m.enterInside e.code (d.inside e.contents)) where
  sizes := hm.sizes
  insides := by
    intro code a ha
    rw [Measures.enterInside, Keyed.get?_insert] at ha
    split at ha
    · next hcode => exact ⟨e, hcode ▸ he, hcomposite, (Option.some.inj ha).symm⟩
    · exact hm.insides code a ha

/-- Everything in an element is the element itself or in one of its members. -/
lemma covers_of_members (hd : d.Consistent) (he : d.elements.get? e.code = some e)
    (hmembers : ∀ c ∈ e.contents.members, d.Covers m c) (hsize : e.code ∈ m.sizes.keys)
    (hinside : e.isComposite = true → e.code ∈ m.insides.keys) : d.Covers m e.code := by
  intro f hf hin
  rcases Relation.ReflTransGen.cases_tail hin with heq | ⟨c, hc, hparent⟩
  · obtain rfl : f = e := by
      rw [← heq, he] at hf
      exact (Option.some.inj hf).symm
    exact ⟨hsize, hinside⟩
  · exact hmembers c ((parent?_of_mem_members hd he).2 hparent) f hf hc

lemma keys_subset_enterSize (m : Measures) (code : String) (size : Rat × Rat) :
    m.sizes.keys ⊆ (m.enterSize code size).sizes.keys :=
  fun _ hc => Keyed.mem_keys_insert.2 (.inl hc)

lemma mem_keys_enterSize (m : Measures) (code : String) (size : Rat × Rat) :
    code ∈ (m.enterSize code size).sizes.keys :=
  Keyed.mem_keys_insert.2 (.inr rfl)

/-- An element without members is measured when its size is entered. -/
lemma Known.measured_leaf (hd : d.Consistent) (hm : d.Known m)
    (he : d.elements.get? e.code = some e) (hleaf : e.isComposite = false) :
    d.Measured m (m.enterSize e.code ((d.part e).width, (d.part e).height)) [e.code] where
  known := hm.enterSize he
  sizes := keys_subset_enterSize _ _ _
  insides := List.Subset.refl _
  covers := by
    intro code hcode
    obtain rfl := List.mem_singleton.1 hcode
    refine covers_of_members hd he (fun c hc => ?_) (mem_keys_enterSize _ _ _) fun htrue => ?_
    · rw [Element.members_eq_nil hleaf] at hc
      cases hc
    · rw [hleaf] at htrue
      cases htrue

/-- A composite state whose members are measured is measured when its inside and its size are
entered. -/
lemma Measured.enclose (hd : d.Consistent) (he : d.elements.get? e.code = some e)
    (hcomposite : e.isComposite = true) (h : d.Measured m m' e.contents.members) :
    d.Measured m ((m'.enterInside e.code (d.inside e.contents)).enterSize e.code
      ((d.part e).width, (d.part e).height)) [e.code] := by
  have hinsides : m'.insides.keys ⊆
      (m'.enterInside e.code (d.inside e.contents)).insides.keys :=
    fun c hc => Keyed.mem_keys_insert.2 (.inl hc)
  refine ⟨(h.known.enterInside he hcomposite).enterSize he,
    List.Subset.trans h.sizes (keys_subset_enterSize _ _ _),
    List.Subset.trans h.insides hinsides, ?_⟩
  intro code hcode
  obtain rfl := List.mem_singleton.1 hcode
  refine covers_of_members hd he (fun c hc => ?_) (mem_keys_enterSize _ _ _)
    fun _ => Keyed.mem_keys_insert.2 (.inr rfl)
  exact (h.covers c hc).grow (keys_subset_enterSize _ _ _) hinsides

/-- Measuring an element comes to an end with right measures for it and for everything in it. -/
theorem measureBy_eq_ok (hd : d.Consistent) (hdistinct : d.IsDistinct) (h : d.At n way e)
    (hm : d.Known m) :
    ∃ m', d.measureBy n way e.code m = .ok m' ∧ d.Measured m m' [e.code] := by
  induction n generalizing way e m with
  | zero =>
    obtain ⟨k, hk⟩ := h.exists_succ hd
    cases hk
  | succ n ih =>
    have hpart := part_eq hd h.element h.ladder.rooted
    rw [measureBy, Table.fetch_eq_ok _ h.element, Fault.ok_bind]
    cases hcomposite : e.isComposite with
    | true =>
      have hmembers : d.CanMeasure (d.measureBy n (e.code :: way)) e.contents.members := by
        intro c hc m hm
        obtain ⟨f, hf, hat⟩ := h.member hd hc
        rw [← hd.code c f hf]
        exact ih hat hm
      obtain ⟨m', hinside, hmeasured⟩ :=
        insideBy_eq_ok hd hdistinct (members_subset_keys hd h.element) hmembers hm
      have hsize : compositeSize e (d.inside e.contents) =
          ((d.part e).width, (d.part e).height) := by
        rw [hpart, if_pos hcomposite]
        rfl
      refine ⟨_, ?_, hmeasured.enclose hd h.element hcomposite⟩
      rw [if_pos rfl, h.enter, Fault.ok_bind, hinside, ← hsize]
      rfl
    | false =>
      have hsize : ((e.leafSize.1, e.leafSize.2) : Rat × Rat) =
          ((d.part e).width, (d.part e).height) := by
        rw [hpart, hcomposite, if_neg Bool.false_ne_true]
        rfl
      refine ⟨_, ?_, hm.measured_leaf hd h.element hcomposite⟩
      rw [if_neg Bool.false_ne_true, hsize]
      rfl

end Diagram

/-! ### Places and drawings -/

/-- The place of an element, if the arrangement around it has the given corner. -/
def Part.boxIn (around : Arrangement) (x y : Rat) (p : Part) : Box :=
  ⟨x + ((around.corners.get? p.code).getD (0, 0)).1,
    y + ((around.corners.get? p.code).getD (0, 0)).2, p.width, p.height⟩

lemma drawComposites_filter (cells : Keyed String) (ps : List Placed) :
    drawComposites cells (ps.filter fun q => q.element.isComposite) = drawComposites cells ps := by
  induction ps generalizing cells with
  | nil => rfl
  | cons p rest ih =>
    cases hcomposite : p.element.isComposite with
    | true =>
      rw [List.filter_cons_of_pos (p := fun q : Placed => q.element.isComposite) hcomposite,
        drawComposites, drawComposites, hcomposite, if_pos rfl, if_pos rfl]
      simp only [ih]
    | false =>
      rw [List.filter_cons_of_neg (by simp [hcomposite]), ih, drawComposites, hcomposite,
        if_neg Bool.false_ne_true]

lemma drawLeaves_filter (cells : Keyed String) (ps : List Placed) :
    drawLeaves cells (ps.filter fun q => !q.element.isComposite) = drawLeaves cells ps := by
  induction ps generalizing cells with
  | nil => rfl
  | cons p rest ih =>
    cases hcomposite : p.element.isComposite with
    | true =>
      rw [List.filter_cons_of_neg (by simp [hcomposite]), ih, drawLeaves, hcomposite, if_pos rfl]
    | false =>
      rw [List.filter_cons_of_pos (by simp [hcomposite]), drawLeaves, drawLeaves, hcomposite,
        if_neg Bool.false_ne_true, if_neg Bool.false_ne_true]
      simp only [ih]

namespace Diagram

/-! ### Placing -/

/-- The places of some elements, by their codes. -/
def entriesOf (ps : List Placed) : List (String × Box) :=
  ps.map fun p => (p.element.code, p.box)

/-- The left side of the arrangement inside an element with a given place. -/
def innerX (d : Diagram) (e : Element) (b : Box) : Rat :=
  b.x + (b.width - (d.inside e.contents).width) / 2

/-- The upper side of the arrangement inside an element with a given place. -/
def innerY (b : Box) : Rat :=
  b.y + compositeHeader + padding

variable {d : Diagram} {e : Element} {n : Nat} {way codes : List String} {c : String}
  {m : Measures} {around : Arrangement} {x y : Rat} {places : Keyed Box}

lemma inside_eq_empty (h : e.isComposite = false) : d.inside e.contents = {} := by
  have hempty := Element.members_eq_nil h
  cases hcontents : e.contents with
  | direct members ts =>
    rw [hcontents] at hempty
    obtain rfl : members = [] := hempty
    rfl
  | concurrent first middle last =>
    rw [Element.isComposite, hcontents] at h
    cases h

/-- An element is placed before those in it. -/
lemma place_part (hd : d.Consistent) (he : d.elements.get? e.code = some e)
    (hrooted : Rooted d.parent? e.code) (around : Arrangement) (x y : Rat) :
    Part.place around x y (d.part e) =
      ⟨e, (d.part e).boxIn around x y, (d.inside e.contents).separators.map
          (innerY ((d.part e).boxIn around x y) + ·)⟩ ::
        Part.placeAll (d.inside e.contents) (d.innerX e ((d.part e).boxIn around x y))
          (innerY ((d.part e).boxIn around x y)) (d.parts e.contents.members) := by
  rw [part_eq hd he hrooted]
  cases hcomposite : e.isComposite with
  | true => rfl
  | false =>
    rw [inside_eq_empty hcomposite, Element.members_eq_nil hcomposite]
    rfl

lemma parts_cons (hc : d.elements.get? c = some e) (codes : List String) :
    d.parts (c :: codes) = d.part e :: d.parts codes := by
  rw [parts_eq, List.filterMap_cons_some hc, List.map_cons]
  rfl

lemma foldlM_placeBy {f : Keyed Box → String → Except Stop (Keyed Box)}
    (h : ∀ c ∈ codes, ∃ e, d.elements.get? c = some e ∧ ∀ places,
      f places c = .ok (places.enter (entriesOf (Part.place around x y (d.part e)))))
    (places : Keyed Box) :
    codes.foldlM f places =
      .ok (places.enter (entriesOf (Part.placeAll around x y (d.parts codes)))) := by
  induction codes generalizing places with
  | nil => rfl
  | cons c rest ih =>
    obtain ⟨⟨e, he, hplace⟩, hrest⟩ := List.forall_mem_cons.1 h
    rw [List.foldlM_cons, hplace, Fault.ok_bind, ih hrest, parts_cons he, Part.placeAll, entriesOf,
      entriesOf, entriesOf, List.map_append, Keyed.enter_append]

/-- Placing an element comes to an end, with places for it and for everything in it. -/
theorem placeBy_eq_ok (hd : d.Consistent) (hdistinct : d.IsDistinct) (hm : d.Known m)
    (h : d.At n way e) (hcovers : d.Covers m e.code) (haround : e.code ∈ around.corners.keys) :
    d.placeBy m n way around x y places e.code =
      .ok (places.enter (entriesOf (Part.place around x y (d.part e)))) := by
  induction n generalizing way e around x y places with
  | zero =>
    obtain ⟨k, hk⟩ := h.exists_succ hd
    cases hk
  | succ n ih =>
    obtain ⟨corner, hcorner⟩ := Keyed.mem_keys_iff.1 haround
    have hsize : m.sizes.get? e.code = some ((d.part e).width, (d.part e).height) := by
      have hcode : (d.part e).code = e.code := code_measureElement d _ e
      have hall : HasSizes m.sizes (d.parts [e.code]) := hm.hasSizes hd fun code hcode => by
        rwa [List.mem_singleton.1 hcode]
      rw [← hcode]
      refine hall _ ?_
      rw [parts_cons h.element]
      exact List.mem_cons_self
    have hbox : (⟨x + corner.1, y + corner.2, (d.part e).width, (d.part e).height⟩ : Box) =
        (d.part e).boxIn around x y := by
      have hcode : (d.part e).code = e.code := code_measureElement d _ e
      rw [Part.boxIn, hcode, hcorner]
      rfl
    rw [place_part hd h.element h.ladder.rooted, entriesOf, List.map_cons, Keyed.enter,
      List.foldl_cons, placeBy, Table.fetch_eq_ok _ hcorner, Fault.ok_bind,
      Table.fetch_eq_ok _ hsize, Fault.ok_bind]
    dsimp only
    rw [hbox]
    cases hcomposite : e.isComposite with
    | true =>
      obtain ⟨a, ha⟩ := Keyed.mem_keys_iff.1 ((hcovers e h.element .refl).2 hcomposite)
      obtain ⟨e', he', -, rfl⟩ := hm.insides _ a ha
      obtain rfl := Option.some.inj (h.element.symm.trans he')
      have hplaced : (places.insert e.code ((d.part e).boxIn around x y)).get? e.code =
          some ((d.part e).boxIn around x y) := by
        rw [Keyed.get?_insert, if_pos rfl]
      rw [ha]
      dsimp only
      rw [Table.fetch_eq_ok _ h.element, Fault.ok_bind, Table.fetch_eq_ok _ hplaced, Fault.ok_bind,
        h.enter, Fault.ok_bind]
      refine foldlM_placeBy (fun c hc => ?_) _
      obtain ⟨f, hf, hat⟩ := h.member hd hc
      obtain rfl := hd.code c f hf
      refine ⟨f, hf, fun places => ih hat (hcovers.member hd h.element hc) ?_⟩
      exact mem_keys_inside hd hdistinct (members_subset_keys hd h.element) hc
    | false =>
      have hnone : m.insides.get? e.code = none := by
        rw [Option.eq_none_iff_forall_ne_some]
        intro a ha
        obtain ⟨e', he', hcomposite', -⟩ := hm.insides _ a ha
        rw [← Option.some.inj (h.element.symm.trans he'), hcomposite] at hcomposite'
        cases hcomposite'
      rw [hnone, Element.members_eq_nil hcomposite]
      rfl

/-! ### Where an element stands -/

/-- The place of an element on the page, by the places of those around it. -/
inductive Stands (d : Diagram) (x y : Rat) : Element → Box → Prop
  | top {e : Element} (he : d.parent? e.code = none) :
    Stands d x y e ((d.part e).boxIn (d.arrange (d.parts d.roots)) x y)
  | member {p e : Element} {b : Box} (hp : d.elements.get? p.code = some p)
    (he : d.parent? e.code = some p.code) (hb : Stands d x y p b) :
    Stands d x y e ((d.part e).boxIn (d.inside p.contents) (d.innerX p b) (innerY b))

/-- An element stands at one place, even if it is listed in two regions. -/
theorem Stands.unique {b b' : Box} (h : d.Stands x y e b) (h' : d.Stands x y e b') : b = b' := by
  induction h generalizing b' with
  | top he =>
    cases h' with
    | top => rfl
    | member _ he' => rw [he] at he'; cases he'
  | @member p e b hp he _ ih =>
    cases h' with
    | top he' => rw [he] at he'; cases he'
    | @member p' _ b' hp' he' hb' =>
      have hcode : p'.code = p.code := Option.some.inj (he'.symm.trans he)
      obtain rfl : p' = p := by
        rw [hcode, hp] at hp'
        exact (Option.some.inj hp').symm
      rw [ih hb']

lemma mem_placeAll {q : Placed} (hc : c ∈ codes) (he : d.elements.get? c = some e)
    (hq : q ∈ Part.place around x y (d.part e)) :
    q ∈ Part.placeAll around x y (d.parts codes) := by
  induction codes with
  | nil => cases hc
  | cons c' rest ih =>
    rcases List.mem_cons.1 hc with rfl | hc
    · rw [parts_cons he, Part.placeAll]
      exact List.mem_append_left _ hq
    · cases hc' : d.elements.get? c' with
      | none =>
        rw [parts_eq, List.filterMap_cons_none hc']
        exact ih hc
      | some e' =>
        rw [parts_cons hc', Part.placeAll]
        exact List.mem_append_right _ (ih hc)

lemma exists_of_mem_placeAll {q : Placed} (hq : q ∈ Part.placeAll around x y (d.parts codes)) :
    ∃ c ∈ codes, ∃ e, d.elements.get? c = some e ∧ q ∈ Part.place around x y (d.part e) := by
  induction codes with
  | nil => cases hq
  | cons c rest ih =>
    have hothers : q ∈ Part.placeAll around x y (d.parts rest) →
        ∃ c' ∈ c :: rest, ∃ e, d.elements.get? c' = some e ∧
          q ∈ Part.place around x y (d.part e) := by
      intro hq
      obtain ⟨c', hc', h⟩ := ih hq
      exact ⟨c', List.mem_cons_of_mem c hc', h⟩
    cases hc : d.elements.get? c with
    | none =>
      rw [parts_eq, List.filterMap_cons_none hc] at hq
      exact hothers hq
    | some e =>
      rw [parts_cons hc, Part.placeAll] at hq
      rcases List.mem_append.1 hq with hq | hq
      · exact ⟨c, List.mem_cons_self, e, hc, hq⟩
      · exact hothers hq

/-- Everything that is placed with an element stands where it belongs if the element does. -/
lemma stands_place (hd : d.Consistent) (h : d.At n way e) {u v : Rat}
    (hb : d.Stands x y e ((d.part e).boxIn around u v)) :
    ∀ q ∈ Part.place around u v (d.part e),
      d.elements.get? q.element.code = some q.element ∧ d.Stands x y q.element q.box := by
  induction n generalizing way e around u v with
  | zero =>
    obtain ⟨k, hk⟩ := h.exists_succ hd
    cases hk
  | succ n ih =>
    rw [place_part hd h.element h.ladder.rooted]
    refine List.forall_mem_cons.2 ⟨⟨h.element, hb⟩, fun q hq => ?_⟩
    obtain ⟨c, hc, f, hf, hq⟩ := exists_of_mem_placeAll hq
    obtain ⟨f', hf', hat⟩ := h.member hd hc
    obtain rfl := Option.some.inj (hf.symm.trans hf')
    obtain rfl := hd.code c f hf
    exact ih hat (.member h.element ((parent?_of_mem_members hd h.element).1 hc) hb) q hq

lemma stands_shapes (hd : d.Consistent) (x y : Rat) : ∀ q ∈ (d.layout x y).shapes,
    d.elements.get? q.element.code = some q.element ∧ d.Stands x y q.element q.box := by
  intro q hq
  obtain ⟨c, hc, f, hf, hq⟩ := exists_of_mem_placeAll
    (show q ∈ Part.placeAll (d.arrange (d.parts d.roots)) x y (d.parts d.roots) from hq)
  obtain ⟨f', hf', hat⟩ := At.root hd hc
  obtain rfl := Option.some.inj (hf.symm.trans hf')
  obtain rfl := hd.code c f hf
  exact stands_place hd hat (.top (mem_roots_iff.1 hc).2) q hq

/-- In the table of the places of some elements, each is found where it stands. -/
lemma get?_entriesOf {ps : List Placed} (h : ∀ q ∈ ps,
      d.elements.get? q.element.code = some q.element ∧ d.Stands x y q.element q.box)
    {q : Placed} (hq : q ∈ ps) :
    (Keyed.empty.enter (entriesOf ps)).get? q.element.code = some q.box := by
  have hkey : q.element.code ∈ (Keyed.empty.enter (entriesOf ps)).keys := by
    refine Keyed.mem_keys_enter.2 (.inr ?_)
    rw [entriesOf, List.map_map]
    exact List.mem_map_of_mem hq
  obtain ⟨b, hb⟩ := Keyed.mem_keys_iff.1 hkey
  rcases Keyed.of_get?_enter hb with hmem | hnone
  · obtain ⟨q', hq', hpair⟩ := List.mem_map.1 hmem
    obtain ⟨hcode, rfl⟩ := Prod.mk.inj hpair
    obtain ⟨hget, hstands⟩ := h q hq
    obtain ⟨hget', hstands'⟩ := h q' hq'
    have helement : q'.element = q.element := by
      rw [hcode, hget] at hget'
      exact (Option.some.inj hget').symm
    rw [helement] at hstands'
    rw [hb, hstands'.unique hstands]
  · cases hnone

/-! ### Drawing -/

lemma mapM_filter_place (f : String → Except Stop (List Placed)) (keep : Placed → Bool)
    (around : Arrangement) (x y : Rat) {codes : List String}
    (h : ∀ c ∈ codes, ∃ e, d.elements.get? c = some e ∧
      f c = .ok ((Part.place around x y (d.part e)).filter keep)) :
    ∃ lists, codes.mapM f = .ok lists ∧
      lists.flatten = (Part.placeAll around x y (d.parts codes)).filter keep := by
  induction codes with
  | nil => exact ⟨[], rfl, rfl⟩
  | cons c rest ih =>
    obtain ⟨⟨e, he, hplace⟩, hrest⟩ := List.forall_mem_cons.1 h
    obtain ⟨lists, hlists, hflatten⟩ := ih hrest
    refine ⟨(Part.place around x y (d.part e)).filter keep :: lists, ?_, ?_⟩
    · rw [List.mapM_cons, hplace, Fault.ok_bind, hlists]
      rfl
    · rw [List.flatten_cons, hflatten, parts_cons he, Part.placeAll, List.filter_append]

/-- The walk for the composite states finds those in an element, with their places. -/
theorem compositesBy_eq_ok (hd : d.Consistent) (hm : d.Known m) (h : d.At n way e)
    (hcovers : d.Covers m e.code) (hplaces : ∀ q ∈ Part.place around x y (d.part e),
      places.get? q.element.code = some q.box) :
    d.compositesBy m places n way e.code =
      .ok ((Part.place around x y (d.part e)).filter fun q => q.element.isComposite) := by
  induction n generalizing way e around x y with
  | zero =>
    obtain ⟨k, hk⟩ := h.exists_succ hd
    cases hk
  | succ n ih =>
    rw [place_part hd h.element h.ladder.rooted] at hplaces ⊢
    obtain ⟨hplace, hmembers⟩ := List.forall_mem_cons.1 hplaces
    rw [compositesBy, Table.fetch_eq_ok _ h.element, Fault.ok_bind]
    cases hcomposite : e.isComposite with
    | true =>
      obtain ⟨a, ha⟩ := Keyed.mem_keys_iff.1 ((hcovers e h.element .refl).2 hcomposite)
      obtain ⟨e', he', -, rfl⟩ := hm.insides _ a ha
      obtain rfl := Option.some.inj (h.element.symm.trans he')
      obtain ⟨lists, hlists, hflatten⟩ := mapM_filter_place
          (d.compositesBy m places n (e.code :: way)) (fun q => q.element.isComposite)
          (d.inside e.contents) (d.innerX e ((d.part e).boxIn around x y))
          (innerY ((d.part e).boxIn around x y)) fun c (hc : c ∈ e.contents.members) => by
        obtain ⟨f, hf, hat⟩ := h.member hd hc
        obtain rfl := hd.code c f hf
        refine ⟨f, hf, ih hat (hcovers.member hd h.element hc) fun q hq => hmembers q ?_⟩
        exact mem_placeAll hc hf hq
      rw [if_pos rfl, Table.fetch_eq_ok _ hplace, Fault.ok_bind, Table.fetch_eq_ok _ ha,
        Fault.ok_bind, h.enter, Fault.ok_bind, hlists, Fault.ok_bind, hflatten,
        List.filter_cons_of_pos (p := fun q : Placed => q.element.isComposite) hcomposite]
      rfl
    | false =>
      rw [if_neg Bool.false_ne_true, Element.members_eq_nil hcomposite,
        List.filter_cons_of_neg (by simp [hcomposite])]
      rfl

/-- The walk for the other elements finds those in an element, with their places. -/
theorem leavesBy_eq_ok (hd : d.Consistent) (h : d.At n way e)
    (hplaces : ∀ q ∈ Part.place around x y (d.part e),
      places.get? q.element.code = some q.box) :
    d.leavesBy places n way e.code =
      .ok ((Part.place around x y (d.part e)).filter fun q => !q.element.isComposite) := by
  induction n generalizing way e around x y with
  | zero =>
    obtain ⟨k, hk⟩ := h.exists_succ hd
    cases hk
  | succ n ih =>
    rw [place_part hd h.element h.ladder.rooted] at hplaces ⊢
    obtain ⟨hplace, hmembers⟩ := List.forall_mem_cons.1 hplaces
    rw [leavesBy, Table.fetch_eq_ok _ h.element, Fault.ok_bind]
    cases hcomposite : e.isComposite with
    | true =>
      obtain ⟨lists, hlists, hflatten⟩ := mapM_filter_place
          (d.leavesBy places n (e.code :: way)) (fun q => !q.element.isComposite)
          (d.inside e.contents) (d.innerX e ((d.part e).boxIn around x y))
          (innerY ((d.part e).boxIn around x y)) fun c (hc : c ∈ e.contents.members) => by
        obtain ⟨f, hf, hat⟩ := h.member hd hc
        obtain rfl := hd.code c f hf
        exact ⟨f, hf, ih hat fun q hq => hmembers q (mem_placeAll hc hf hq)⟩
      rw [if_pos rfl, h.enter, Fault.ok_bind, hlists, Fault.ok_bind, hflatten,
        List.filter_cons_of_neg (by simp [hcomposite])]
      rfl
    | false =>
      have hcontents : d.inside e.contents = {} := inside_eq_empty hcomposite
      rw [if_neg Bool.false_ne_true, Table.fetch_eq_ok _ hplace, Element.members_eq_nil hcomposite,
        List.filter_cons_of_pos (by simp [hcomposite]), hcontents]
      rfl

/-- A layout with tables finds the places of all elements. -/
theorem layoutByTables_eq_ok (hd : d.Consistent) (hdistinct : d.IsDistinct) (x y : Rat) :
    d.layoutByTables x y = .ok
      { composites := (d.layout x y).shapes.filter fun q => q.element.isComposite
        leaves := (d.layout x y).shapes.filter fun q => !q.element.isComposite
        places := (d.layout x y).boxes
        width := (d.layout x y).width } := by
  have hroots : d.roots ⊆ d.elements.keys := fun c hc => (mem_roots_iff.1 hc).1
  have hmeasure : d.CanMeasure (d.measureBy d.elements.entries.length []) d.roots := by
    intro c hc m hm
    obtain ⟨f, hf, hat⟩ := At.root hd hc
    obtain rfl := hd.code c f hf
    exact measureBy_eq_ok hd hdistinct hat hm
  obtain ⟨m, hlayout, hmeasured⟩ := layoutBy_eq_ok hd hroots hmeasure (m := {})
    ⟨fun _ _ h => (nomatch h), fun _ _ h => nomatch h⟩
  have hplace : d.roots.foldlM
      (d.placeBy m d.elements.entries.length [] (d.arrange (d.parts d.roots)) x y) Keyed.empty =
        .ok (Keyed.empty.enter (entriesOf
          (Part.placeAll (d.arrange (d.parts d.roots)) x y (d.parts d.roots)))) := by
    refine foldlM_placeBy (fun c hc => ?_) _
    obtain ⟨f, hf, hat⟩ := At.root hd hc
    obtain rfl := hd.code c f hf
    exact ⟨f, hf, fun places => placeBy_eq_ok hd hdistinct hmeasured.known hat
      (hmeasured.covers _ hc) (mem_keys_arrange hd hdistinct hroots hc)⟩
  -- the places that were entered are those of the layout
  have hshapes : Part.placeAll (d.arrange (d.parts d.roots)) x y (d.parts d.roots) =
      (d.layout x y).shapes := rfl
  have hboxes : Keyed.empty.enter (entriesOf (d.layout x y).shapes) = (d.layout x y).boxes := rfl
  have hplaces : ∀ q ∈ (d.layout x y).shapes,
      (d.layout x y).boxes.get? q.element.code = some q.box :=
    fun q hq => get?_entriesOf (stands_shapes hd x y) hq
  obtain ⟨composites, hcomposites, hcompositesAll⟩ := mapM_filter_place
      (d.compositesBy m (d.layout x y).boxes d.elements.entries.length [])
      (fun q => q.element.isComposite) (d.arrange (d.parts d.roots)) x y
      fun c (hc : c ∈ d.roots) => by
    obtain ⟨f, hf, hat⟩ := At.root hd hc
    obtain rfl := hd.code c f hf
    exact ⟨f, hf, compositesBy_eq_ok hd hmeasured.known hat (hmeasured.covers _ hc)
      fun q hq => hplaces q (mem_placeAll hc hf hq)⟩
  obtain ⟨leaves, hleaves, hleavesAll⟩ := mapM_filter_place
      (d.leavesBy (d.layout x y).boxes d.elements.entries.length [])
      (fun q => !q.element.isComposite) (d.arrange (d.parts d.roots)) x y
      fun c (hc : c ∈ d.roots) => by
    obtain ⟨f, hf, hat⟩ := At.root hd hc
    obtain rfl := hd.code c f hf
    exact ⟨f, hf, leavesBy_eq_ok hd hat fun q hq => hplaces q (mem_placeAll hc hf hq)⟩
  rw [hshapes] at hplace hcompositesAll hleavesAll
  unfold layoutByTables
  dsimp only
  rw [hlayout, Fault.ok_bind]
  dsimp only
  rw [hplace, Fault.ok_bind, hboxes, hcomposites, Fault.ok_bind, hleaves, Fault.ok_bind,
    hcompositesAll, hleavesAll]
  rfl

lemma drawTitle_bind {α : Type} (d : Diagram) (f : Rat → Sketch α) :
    d.drawTitle >>= f = d.drawTitle >>= fun _ => f d.top := by
  unfold drawTitle top
  split
  · next h => rw [h]; rfl
  · next h => rw [h]; rfl

/-- For every text, a layout with tables finds every value that it reads, never enters a composite
state that it is in, and nests no more elements than there are, and so it comes to the drawing. -/
theorem drawByTables_read (text parent : String) :
    (read text).drawByTables parent = .ok ((read text).draw parent) := by
  have hlayout := layoutByTables_eq_ok (consistent_read text) (distinct_read text) margin
    (read text).top
  unfold drawByTables draw sketch
  rw [hlayout, Fault.ok_bind, drawTitle_bind]
  simp only [sketchBy, drawComposites_filter, drawLeaves_filter]
  rfl

/-- Of a diagram that does not come from a text, the checks find out that a state is in itself. -/
example : ({ elements := Keyed.ofList [
      ("a", { code := "a", display := "a", contents := .direct ["b", "a"] [] }),
      ("b", { code := "b", display := "b", parent := some "a" })] } : Diagram).drawByTables "1" =
    .error (.ring "a") := rfl

end Diagram
end State
end UmlDraw
