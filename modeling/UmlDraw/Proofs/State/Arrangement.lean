/-
# Arrangements hold their elements

Layers stand one after the other and each is in the middle of the broadest one, regions lie below
each other and each is in the middle of the widest one: the elements stay inside the arrangement.
For that an element that stands in two regions must have one size, and no region may list it twice,
since it is moved once for each time it is listed.

The main statements are

* `Axis.holds_arrange`: an arrangement in layers holds its elements;
* `Arrangement.Holds.below`, `Arrangement.Holds.center` and `Arrangement.holds_stack`: so do regions
  below each other.
-/
import Mathlib.Tactic.Ring
import UmlDraw.Proofs.Layout.Layering
import UmlDraw.State.Layout

namespace UmlDraw
namespace State

namespace Part

/-- Elements with one code have one width. -/
def Agree (parts : List Part) : Prop :=
  ∀ p ∈ parts, ∀ q ∈ parts, p.code = q.code → p.width = q.width

/-- The sides of an element are not negative. -/
structure IsProper (p : Part) : Prop where
  width : 0 ≤ p.width
  height : 0 ≤ p.height

/-- What is found in the table of some elements is one of them, under its own code. -/
lemma of_get?_ofList_code {parts : List Part} {code : String} {p : Part}
    (h : (Keyed.ofList (parts.map fun p => (p.code, p))).get? code = some p) :
    p.code = code ∧ p ∈ parts := by
  change (Keyed.empty.enter (parts.map fun p => (p.code, p))).get? code = some p at h
  rcases Keyed.of_get?_enter h with hmem | hnone
  · obtain ⟨q, hq, hpair⟩ := List.mem_map.1 hmem
    obtain ⟨rfl, rfl⟩ := Prod.mk.inj hpair
    exact ⟨rfl, hq⟩
  · cases hnone

lemma Agree.mono {parts parts' : List Part} (h : Agree parts) (hsub : parts' ⊆ parts) :
    Agree parts' :=
  fun p hp q hq => h p (hsub hp) q (hsub hq)

end Part

/-- The elements of an arrangement have corners, and lie inside it from left to right and below its
upper side. -/
structure Arrangement.Holds (a : Arrangement) (parts : List Part) : Prop where
  width : 0 ≤ a.width
  height : 0 ≤ a.height
  keys : ∀ p ∈ parts, p.code ∈ a.corners.keys
  corner : ∀ code c, a.corners.get? code = some c → 0 ≤ c.1 ∧ 0 ≤ c.2 ∧
    ∃ p ∈ parts, p.code = code ∧ c.1 + p.width ≤ a.width

namespace Axis

variable {a : Axis} {parts : List Part}

/-- An element with the given corner lies within a length along the layers and a breadth across
them. -/
structure Fits (a : Axis) (length breadth : Rat) (p : Part) (c : Rat × Rat) : Prop where
  along : 0 ≤ (a.turn c.1 c.2).1
  across : 0 ≤ (a.turn c.1 c.2).2
  length : (a.turn c.1 c.2).1 + a.along p ≤ length
  breadth : (a.turn c.1 c.2).2 + a.across p ≤ breadth

lemma turn_turn (a : Axis) (u v : Rat) : a.turn (a.turn u v).1 (a.turn u v).2 = (u, v) := by
  unfold turn
  cases a.leftToRight <;> rfl

lemma Fits.mono {length length' breadth : Rat} {p : Part} {c : Rat × Rat}
    (h : a.Fits length breadth p c) (hlength : length ≤ length') : a.Fits length' breadth p c :=
  ⟨h.along, h.across, h.length.trans hlength, h.breadth⟩

/-- Seen from left to right and from above, an element that fits lies within the turned
measures. -/
lemma Fits.corner {length breadth : Rat} {p : Part} {c : Rat × Rat}
    (h : a.Fits length breadth p c) :
    0 ≤ c.1 ∧ 0 ≤ c.2 ∧ c.1 + p.width ≤ (a.turn length breadth).1 ∧
      c.2 + p.height ≤ (a.turn length breadth).2 := by
  obtain ⟨halong, hacross, hlength, hbreadth⟩ := h
  unfold turn Axis.along Axis.across at *
  cases ha : a.leftToRight <;> simp only [ha, if_true, if_false, Bool.false_eq_true] at *
  · exact ⟨hacross, halong, hbreadth, hlength⟩
  · exact ⟨halong, hacross, hlength, hbreadth⟩

lemma across_nonneg {p : Part} (hp : p.IsProper) : 0 ≤ a.across p := by
  unfold across
  split
  · exact hp.height
  · exact hp.width

lemma gapAcross_nonneg (a : Axis) : 0 ≤ a.gapAcross := by
  unfold gapAcross
  split <;> norm_num [gapX, gapY]

lemma gapAlong_nonneg (a : Axis) : 0 ≤ a.gapAlong := by
  unfold gapAlong
  split <;> norm_num [gapX, gapY]

lemma foldl_add (qs : List Rat) (q r : Rat) :
    qs.foldl (· + ·) (q + r) = q + qs.foldl (· + ·) r := by
  induction qs generalizing r with
  | nil => rfl
  | cons s rest ih => rw [List.foldl_cons, List.foldl_cons, add_assoc, ih]

lemma breadth_cons (a : Axis) (p : Part) (layer : List Part) :
    a.breadth (p :: layer) = a.across p + a.gapAcross + a.breadth layer := by
  have htotal : Fraction.total ((p :: layer).map a.across) =
      a.across p + Fraction.total (layer.map a.across) := by
    unfold Fraction.total
    rw [List.map_cons, List.foldl_cons, zero_add, ← foldl_add, add_zero]
  unfold breadth
  rw [htotal, List.length_cons, Nat.cast_succ]
  ring

/-- What is left of a layer behind its first element. -/
lemma neg_gapAcross_le_breadth {layer : List Part} (h : ∀ p ∈ layer, p.IsProper) :
    -a.gapAcross ≤ a.breadth layer := by
  induction layer with
  | nil => simp [breadth, Fraction.total]
  | cons p rest ih =>
    obtain ⟨hp, hrest⟩ := List.forall_mem_cons.1 h
    have hacross := across_nonneg (a := a) hp
    have hgap := a.gapAcross_nonneg
    rw [breadth_cons]
    linarith [ih hrest]

lemma depth_nonneg {layer : List Part} (h : ∀ p ∈ layer, p.IsProper) : 0 ≤ a.depth layer := by
  rcases Box.greatest_mem 0 (layer.map a.along) with hzero | hmem
  · exact hzero.symm.le
  · obtain ⟨p, hp, hdepth⟩ := List.mem_map.1 hmem
    unfold depth
    rw [← hdepth]
    unfold along
    split
    · exact (h p hp).width
    · exact (h p hp).height

/-- A table of corners holds elements of the list, within a length and a breadth. -/
def Places (a : Axis) (length breadth : Rat) (parts : List Part) (corners : Keyed (Rat × Rat)) :
    Prop :=
  ∀ code c, corners.get? code = some c → ∃ p ∈ parts, p.code = code ∧ a.Fits length breadth p c

lemma Places.insert {length breadth : Rat} {corners : Keyed (Rat × Rat)} {p : Part}
    {c : Rat × Rat} (h : a.Places length breadth parts corners) (hp : p ∈ parts)
    (hc : a.Fits length breadth p c) : a.Places length breadth parts (corners.insert p.code c) := by
  intro code c' hc'
  rw [Keyed.get?_insert] at hc'
  split at hc'
  · next hcode =>
    obtain rfl := Option.some.inj hc'
    exact ⟨p, hp, hcode.symm, hc⟩
  · exact h code c' hc'

/-- A layer that starts within the breadth with room for all its elements. -/
lemma places_placeLayer {start depth breadth : Rat} (next : Rat) {corners : Keyed (Rat × Rat)}
    {layer : List Part} (hproper : ∀ p ∈ parts, p.IsProper) (hsub : layer ⊆ parts)
    (hstart : 0 ≤ start) (hdepth : ∀ p ∈ layer, a.along p ≤ depth) (hnext : 0 ≤ next)
    (hroom : next + a.breadth layer ≤ breadth)
    (h : a.Places (start + depth) breadth parts corners) :
    a.Places (start + depth) breadth parts (a.placeLayer start depth next corners layer) ∧
      corners.Gains (a.placeLayer start depth next corners layer) (layer.map Part.code) := by
  induction layer generalizing next corners with
  | nil => exact ⟨h, Keyed.Gains.refl _⟩
  | cons p rest ih =>
    obtain ⟨hp, hrest⟩ := List.cons_subset.1 hsub
    obtain ⟨hpdepth, hrestdepth⟩ := List.forall_mem_cons.1 hdepth
    have hacross := across_nonneg (a := a) (hproper p hp)
    have hgap := a.gapAcross_nonneg
    have htail := neg_gapAcross_le_breadth (a := a) fun q hq => hproper q (hrest hq)
    rw [breadth_cons] at hroom
    have hfits : a.Fits (start + depth) breadth p
        (a.turn (start + (depth - a.along p) / 2) next) := by
      constructor <;> rw [turn_turn] <;> linarith
    obtain ⟨hplaces, hgains⟩ := ih (next + a.across p + a.gapAcross) hrest hrestdepth
      (by linarith) (by linarith) (h.insert hp hfits)
    rw [placeLayer]
    exact ⟨hplaces, (Keyed.gains_insert _ _ _).trans hgains⟩

/-- Layers, each in the middle of a breadth that none of them exceeds. -/
lemma places_placeLayers {breadth : Rat} (start : Rat) {corners : Keyed (Rat × Rat)}
    {layers : List (List Part)} (hproper : ∀ p ∈ parts, p.IsProper)
    (hsub : ∀ layer ∈ layers, layer ⊆ parts)
    (hbreadth : ∀ layer ∈ layers, a.breadth layer ≤ breadth) (hstart : 0 ≤ start)
    (h : a.Places (start - a.gapAlong) breadth parts corners) :
    a.Places ((a.placeLayers breadth start corners layers).2 - a.gapAlong) breadth parts
        (a.placeLayers breadth start corners layers).1 ∧
      corners.Gains (a.placeLayers breadth start corners layers).1
        (layers.flatten.map Part.code) := by
  induction layers generalizing start corners with
  | nil => exact ⟨h, Keyed.Gains.refl _⟩
  | cons layer rest ih =>
    obtain ⟨hlayer, hrest⟩ := List.forall_mem_cons.1 hsub
    obtain ⟨hfirst, hothers⟩ := List.forall_mem_cons.1 hbreadth
    have hgap := a.gapAlong_nonneg
    have hdepth := depth_nonneg (a := a) fun p hp => hproper p (hlayer hp)
    have hbefore : a.Places (start + a.depth layer) breadth parts corners := by
      intro code c hc
      obtain ⟨p, hp, hcode, hfits⟩ := h code c hc
      exact ⟨p, hp, hcode, hfits.mono (by linarith)⟩
    obtain ⟨hplaces, hgains⟩ := places_placeLayer ((breadth - a.breadth layer) / 2) hproper
      hlayer hstart (fun p hp => Box.le_greatest _ (List.mem_map_of_mem hp)) (by linarith)
      (by linarith) hbefore
    obtain ⟨hplaces', hgains'⟩ := ih (start + a.depth layer + a.gapAlong) hrest hothers
      (by linarith) (by rwa [add_sub_cancel_right])
    rw [placeLayers, List.flatten_cons, List.map_append]
    exact ⟨hplaces', hgains.trans hgains'⟩

/-- An arrangement in layers holds its elements. -/
theorem holds_arrange (a : Axis) (links : List (String × String))
    (hproper : ∀ p ∈ parts, p.IsProper) : (a.arrange links parts).Holds parts := by
  unfold arrange
  split
  · next hempty =>
    obtain rfl := List.isEmpty_iff.1 hempty
    exact ⟨le_rfl, le_rfl, by simp, fun _ _ h => nomatch h⟩
  · next hnonempty =>
    dsimp only
    generalize htable : Keyed.ofList (parts.map fun p => (p.code, p)) = table
    generalize hlayers : (Layering.layers (parts.map Part.code) links).map
      (fun layer => layer.filterMap table.get?) = layers
    have hget : ∀ code p, table.get? code = some p → p.code = code ∧ p ∈ parts := by
      rw [← htable]
      exact fun code p => Part.of_get?_ofList_code
    have hsub : ∀ layer ∈ layers, layer ⊆ parts := by
      intro layer hlayer p hp
      rw [← hlayers] at hlayer
      obtain ⟨codes, -, rfl⟩ := List.mem_map.1 hlayer
      obtain ⟨code, -, hcode⟩ := List.mem_filterMap.1 hp
      exact (hget code p hcode).2
    have hcodes : ∀ p ∈ parts, p.code ∈ layers.flatten.map Part.code := by
      intro p hp
      have hnode : p.code ∈ (Layering.layers (parts.map Part.code) links).flatten :=
        Layering.mem_flatten_layers.2 (List.mem_map_of_mem hp)
      obtain ⟨codes, hlayer, hmem⟩ := List.mem_flatten.1 hnode
      have hkey : p.code ∈ table.keys := by
        rw [← htable, Keyed.mem_keys_ofList, List.map_map]
        exact List.mem_map_of_mem hp
      obtain ⟨q, hq⟩ := Keyed.mem_keys_iff.1 hkey
      rw [← (hget _ q hq).1]
      refine List.mem_map_of_mem (List.mem_flatten.2 ⟨codes.filterMap table.get?, ?_, ?_⟩)
      · rw [← hlayers]
        exact List.mem_map_of_mem hlayer
      · exact List.mem_filterMap.2 ⟨p.code, hmem, hq⟩
    have hbreadth : ∀ layer ∈ layers,
        a.breadth layer ≤ Box.greatest 0 (layers.map a.breadth) := fun layer hlayer =>
      Box.le_greatest _ (List.mem_map_of_mem hlayer)
    have hempty : a.Places (0 - a.gapAlong) (Box.greatest 0 (layers.map a.breadth)) parts
      Keyed.empty := fun _ _ h => nomatch h
    obtain ⟨hplaces, hgains⟩ := places_placeLayers 0 hproper hsub hbreadth le_rfl hempty
    have hkeys : ∀ p ∈ parts, p.code ∈ (a.placeLayers (Box.greatest 0 (layers.map a.breadth)) 0
        Keyed.empty layers).1.keys := fun p hp => hgains.new (hcodes p hp)
    -- an element that lies inside shows that there is an inside
    obtain ⟨p, hp⟩ := List.exists_mem_of_ne_nil parts (by simpa using hnonempty)
    obtain ⟨c, hc⟩ := Keyed.mem_keys_iff.1 (hkeys p hp)
    obtain ⟨q, hq, -, hfits⟩ := hplaces p.code c hc
    obtain ⟨hx, hy, hright, hbottom⟩ := hfits.corner
    have hwidth := (hproper q hq).width
    have hheight := (hproper q hq).height
    refine ⟨by linarith, by linarith, hkeys, ?_⟩
    intro code c hc
    obtain ⟨q, hq, hcode, hfits⟩ := hplaces code c hc
    obtain ⟨hx, hy, hright, -⟩ := hfits.corner
    exact ⟨hx, hy, q, hq, hcode, hright⟩

end Axis

namespace Arrangement

variable {a inner : Arrangement} {parts parts' : List Part}

/-- Where an element lies that is one of the arrangement, whatever list it is taken from. -/
lemma Holds.of_code (h : a.Holds parts) (hagree : Part.Agree parts) {p : Part} (hp : p ∈ parts) :
    ∃ c, a.corners.get? p.code = some c ∧ 0 ≤ c.1 ∧ 0 ≤ c.2 ∧ c.1 + p.width ≤ a.width := by
  obtain ⟨c, hc⟩ := Keyed.mem_keys_iff.1 (h.keys p hp)
  obtain ⟨hx, hy, q, hq, hcode, hright⟩ := h.corner p.code c hc
  rw [hagree q hq p hp hcode] at hright
  exact ⟨c, hc, hx, hy, hright⟩

/-- The corners of a further region are entered behind those of the arrangement. -/
lemma corners_below (a inner : Arrangement) :
    (a.below inner).corners = a.corners.enter (inner.corners.entries.map
      fun e => (e.1, (e.2.1, e.2.2 + (a.height + separatorGap * 2)))) := by
  unfold Arrangement.below Keyed.enter
  rw [List.foldl_map]

/-- A further region below an arrangement. -/
lemma Holds.below (h : a.Holds parts) (h' : inner.Holds parts') :
    (a.below inner).Holds (parts ++ parts') := by
  have hheight := h.height
  have hheight' := h'.height
  have hgap : (0 : Rat) ≤ separatorGap := by simp [separatorGap]
  refine ⟨h.width.trans (Fraction.le_larger_left _ _), ?_, ?_, ?_⟩
  · simp only [Arrangement.below]
    linarith
  · intro p hp
    rw [corners_below, Keyed.mem_keys_enter, List.map_map]
    rcases List.mem_append.1 hp with hp | hp
    · exact .inl (h.keys p hp)
    · exact .inr (h'.keys p hp)
  · intro code c hc
    rw [corners_below] at hc
    rcases Keyed.of_get?_enter hc with hmem | hc
    · obtain ⟨⟨code', c'⟩, hentry, heq⟩ := List.mem_map.1 hmem
      obtain ⟨rfl, rfl⟩ := Prod.mk.inj heq
      obtain ⟨hx, hy, p, hp, hcode, hright⟩ := h'.corner code' c' (Keyed.get?_eq_some_iff.2 hentry)
      refine ⟨hx, ?_, p, List.mem_append_right _ hp, hcode, ?_⟩
      · simp only
        linarith
      · exact hright.trans (Fraction.le_larger_right _ _)
    · obtain ⟨hx, hy, p, hp, hcode, hright⟩ := h.corner code c hc
      exact ⟨hx, hy, p, List.mem_append_left _ hp, hcode,
        hright.trans (Fraction.le_larger_left _ _)⟩

lemma get?_foldl_modify {α : Type} (f : α → α) (t : Keyed α) {codes : List String}
    (hnodup : codes.Nodup) (key : String) :
    (codes.foldl (fun t code => t.modify code f) t).get? key =
      if key ∈ codes then (t.get? key).map f else t.get? key := by
  induction codes generalizing t with
  | nil => simp
  | cons code rest ih =>
    obtain ⟨hnew, hrest⟩ := List.nodup_cons.1 hnodup
    rw [List.foldl_cons, ih _ hrest, Keyed.get?_modify]
    by_cases h : key = code
    · subst h
      simp [hnew]
    · simp [h]

/-- Moving the elements of a region, each of them once, into the middle of the width. -/
lemma Holds.center (h : a.Holds parts) (hagree : Part.Agree parts) (hsub : parts' ⊆ parts)
    (hnodup : (parts'.map Part.code).Nodup) : (a.center parts').Holds parts := by
  generalize hshift : (a.width - Box.greatest 0 (parts'.map fun p =>
    ((a.corners.get? p.code).getD (0, 0)).1 + p.width)) / 2 = shift
  have hright : ∀ p ∈ parts', ((a.corners.get? p.code).getD (0, 0)).1 + p.width + shift ≤ a.width ∧
      0 ≤ shift := by
    have hfits : ∀ p ∈ parts', ((a.corners.get? p.code).getD (0, 0)).1 + p.width ≤ a.width := by
      intro p hp
      obtain ⟨c, hc, -, -, hright⟩ := h.of_code hagree (hsub hp)
      rw [hc]
      exact hright
    have hgreatest : Box.greatest 0 (parts'.map fun p =>
        ((a.corners.get? p.code).getD (0, 0)).1 + p.width) ≤ a.width := by
      rcases Box.greatest_mem 0 (parts'.map fun p =>
        ((a.corners.get? p.code).getD (0, 0)).1 + p.width) with hzero | hmem
      · rw [hzero]
        exact h.width
      · obtain ⟨p, hp, hgreatest⟩ := List.mem_map.1 hmem
        rw [← hgreatest]
        exact hfits p hp
    intro p hp
    have hle := Box.le_greatest 0 (List.mem_map_of_mem
      (f := fun p : Part => ((a.corners.get? p.code).getD (0, 0)).1 + p.width) hp)
    constructor <;> linarith
  have hcorners : ∀ code, (a.center parts').corners.get? code =
      if code ∈ parts'.map Part.code then (a.corners.get? code).map fun c => (c.1 + shift, c.2)
      else a.corners.get? code := by
    intro code
    rw [← get?_foldl_modify _ _ hnodup, List.foldl_map, ← hshift]
    rfl
  refine ⟨h.width, h.height, ?_, ?_⟩
  · intro p hp
    obtain ⟨c, hc⟩ := Keyed.mem_keys_iff.1 (h.keys p hp)
    rw [Keyed.mem_keys_iff, hcorners, hc]
    split
    · exact ⟨_, rfl⟩
    · exact ⟨c, rfl⟩
  · intro code c hc
    rw [hcorners] at hc
    split at hc
    · next hmem =>
      obtain ⟨q, hq, rfl⟩ := List.mem_map.1 hmem
      obtain ⟨c', hc', rfl⟩ := Option.map_eq_some_iff.1 hc
      obtain ⟨hx, hy, -⟩ := h.corner q.code c' hc'
      have hmoved := hright q hq
      rw [hc', Option.getD_some] at hmoved
      refine ⟨?_, hy, q, hsub hq, rfl, ?_⟩
      · simp only
        linarith
      · simp only [Arrangement.center]
        linarith
    · exact h.corner code c hc

/-- Regions below each other, each in the middle of the widest one. -/
theorem holds_stack {regions : List (List Part × Arrangement)}
    (h : ∀ r ∈ regions, r.2.Holds r.1 ∧ (r.1.map Part.code).Nodup)
    (hagree : Part.Agree (regions.map Prod.fst).flatten) :
    (stack regions).Holds (regions.map Prod.fst).flatten := by
  cases regions with
  | nil => exact ⟨le_rfl, le_rfl, by simp, fun _ _ h => nomatch h⟩
  | cons first rest =>
    obtain ⟨parts, arrangement⟩ := first
    obtain ⟨hfirst, hrest⟩ := List.forall_mem_cons.1 h
    -- first the regions are put below each other
    have hbelow : ∀ (a : Arrangement) (ps : List Part), a.Holds ps →
        ∀ rs : List (List Part × Arrangement), (∀ r ∈ rs, r.2.Holds r.1) →
        (rs.foldl (fun a r => a.below r.2) a).Holds (ps ++ (rs.map Prod.fst).flatten) := by
      intro a ps ha rs hrs
      induction rs generalizing a ps with
      | nil => simpa using ha
      | cons r rs ih =>
        obtain ⟨hr, hrs⟩ := List.forall_mem_cons.1 hrs
        have hall := ih (a.below r.2) (ps ++ r.1) (ha.below hr) hrs
        rwa [List.append_assoc] at hall
    have hall := hbelow arrangement parts hfirst.1 rest fun r hr => (hrest r hr).1
    -- then each is moved
    have hcenter : ∀ (regions : List (List Part)) (a : Arrangement) (ps : List Part), a.Holds ps →
        Part.Agree ps → (∀ r ∈ regions, r ⊆ ps ∧ (r.map Part.code).Nodup) →
        (regions.foldl Arrangement.center a).Holds ps := by
      intro regions
      induction regions with
      | nil => exact fun _ _ ha _ _ => ha
      | cons r rs ih =>
        intro a ps ha hps hregions
        obtain ⟨⟨hsub, hnodup⟩, hrs⟩ := List.forall_mem_cons.1 hregions
        exact ih _ ps (ha.center hps hsub hnodup) hps hrs
    rw [List.map_cons, List.flatten_cons] at hagree ⊢
    refine hcenter (parts :: rest.map Prod.fst) _ _ hall hagree ?_
    refine List.forall_mem_cons.2 ⟨⟨List.subset_append_left _ _, hfirst.2⟩, ?_⟩
    intro r hr
    obtain ⟨region, hregion, rfl⟩ := List.mem_map.1 hr
    refine ⟨fun p hp => List.mem_append_right _ ?_, (hrest region hregion).2⟩
    exact List.mem_flatten.2 ⟨region.1, hr, hp⟩

end Arrangement
end State
end UmlDraw
