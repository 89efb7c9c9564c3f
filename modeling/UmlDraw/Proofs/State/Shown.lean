/-
# What a drawing of a state diagram shows

The drawing has a shape for every element of the layout, and a connector for every transition
between two such elements.  The table that is made on the way says which shape draws which element.
If a ring of composite states cuts some elements off from the top, the drawing is silent about them.

The main statements are

* `Diagram.exists_shown_draw`: the shapes and connectors of a drawing;
* `Diagram.shown_read`: what the drawing of a text shows, and when it shows everything.
-/
import UmlDraw.Proofs.Drawing.Relation
import UmlDraw.Proofs.State.Layout

namespace UmlDraw
namespace State

open Sketch

/-- The label and the style of the shape of an element. -/
def Element.look (e : Element) : String × Style :=
  if e.isComposite then (e.label, compositeStyle e)
  else
    match e.kind with
    | .initial => ("", dotStyle)
    | .final => ("", ringStyle)
    | .choice => ("", choiceStyle)
    | .bar | .synchroBar => ("", barStyle)
    | .history => ("H", historyStyle)
    | .deepHistory => ("H*", historyStyle)
    | .state => (e.label, if e.descriptions.isEmpty then plainStyle e else describedStyle e)

/-- A cell is the shape of an element. -/
structure Element.ShownBy (e : Element) (parent : String) (c : Cell) : Prop where
  vertex : c.vertex = true
  parent : c.parent = parent
  value : c.value = e.look.1
  style : c.style = e.look.2.render

/-- A cell is the connector of a transition. -/
structure Transition.ShownBy (t : Transition) (table : Keyed String) (parent : String) (c : Cell) :
    Prop where
  edge : c.edge = true
  parent : c.parent = parent
  value : c.value = Label.html (t.label.getD "")
  style : c.style = (transitionStyle t).render
  source : c.source = table.get? t.source
  target : c.target = table.get? t.target

/-- Both ends of a transition have shapes. -/
def Transition.isBetween (table : Keyed String) (t : Transition) : Bool :=
  table.contains t.source && table.contains t.target

namespace Diagram

/-- The table gives different elements different shapes among the cells. -/
structure Tabled (d : Diagram) (parent : String) (cells : List Cell) (table : Keyed String) :
    Prop where
  shape : ∀ code id, table.get? code = some id →
    ∃ e, d.elements.get? code = some e ∧ ∃ c ∈ cells, c.id = id ∧ e.ShownBy parent c
  distinct : ∀ code code' id, table.get? code = some id → table.get? code' = some id → code = code'

/-- The cells show the elements of the table, and then the transitions between them, one by one. -/
structure Shown (d : Diagram) (parent : String) (cells : List Cell) (table : Keyed String) : Prop
    extends d.Tabled parent cells table where
  connectors : ∃ before after, cells = before ++ after ∧
    List.Forall₂ (fun t c => t.ShownBy table parent c)
      (d.transitions.filter (Transition.isBetween table)) after

end Diagram

variable {d : Diagram} {k k' : Canvas} {table : Keyed String}

lemma nextId_ne_of_mem (hk : k.Sound) {c : Cell} (hc : c ∈ k.cells) : c.id ≠ k.nextId := by
  intro h
  have hid : c.id ∈ k.cells.map Cell.id := List.mem_map_of_mem hc
  rw [hk.ids, h, Document.numberedIds, List.mem_map] at hid
  obtain ⟨n, hn, heq⟩ := hid
  have := Document.numberedId_injective heq
  have := List.mem_range.1 hn
  omega

namespace Diagram

/-- An element was drawn, and its shape has the next id of the canvas. -/
def Draws (e : Element) (k : Canvas) (id : String) (k' : Canvas) : Prop :=
  id = k.nextId ∧ ∃ c ∈ k'.cells, c.id = id ∧ e.ShownBy k.parent c

/-- The elements that were drawn so far are those of the table. -/
structure Drawn (d : Diagram) (k : Canvas) (table : Keyed String) (done : List Element) : Prop
    extends d.Tabled k.parent k.cells table where
  sound : k.Sound
  mem_keys : ∀ code, code ∈ table.keys ↔ code ∈ done.map Element.code

variable {done : List Element} {e : Element} {id : String}

lemma Drawn.grows (h : d.Drawn k table done) (hk : k.Grows k') : d.Drawn k' table done where
  shape := by
    intro code id hid
    obtain ⟨e, he, c, hc, hcid, hshown⟩ := h.shape code id hid
    exact ⟨e, he, c, hk.cells hc, hcid, hk.parent ▸ hshown⟩
  distinct := h.distinct
  sound := hk.sound h.sound
  mem_keys := h.mem_keys

lemma Drawn.shows (h : d.Drawn k table done) : k.Shows table := by
  intro code id hid
  obtain ⟨e, -, c, hc, hcid, hshown⟩ := h.shape code id hid
  exact ⟨c, hc, hcid, hshown.vertex⟩

lemma Drawn.insert (h : d.Drawn k table done) (hk : k.Grows k')
    (he : d.elements.get? e.code = some e) (hdraws : Draws e k id k') :
    d.Drawn k' (table.insert e.code id) (done ++ [e]) := by
  obtain ⟨rfl, hshape⟩ := hdraws
  -- the id is new
  have hfresh : ∀ code, table.get? code ≠ some k.nextId := by
    intro code hid
    obtain ⟨-, -, c, hc, hcid, -⟩ := h.shape code _ hid
    exact nextId_ne_of_mem h.sound hc hcid
  constructor
  · constructor
    · intro code id hid
      rw [Keyed.get?_insert] at hid
      split at hid
      · next hcode =>
        obtain rfl := Option.some.inj hid
        obtain ⟨c, hc, hcid, hshown⟩ := hshape
        exact ⟨e, hcode ▸ he, c, hc, hcid, hk.parent.symm ▸ hshown⟩
      · exact (h.grows hk).shape code id hid
    · intro code code' id hid hid'
      rw [Keyed.get?_insert] at hid hid'
      split at hid <;> split at hid'
      · next hcode hcode' => rw [hcode, hcode']
      · exact absurd (hid'.trans hid.symm) (hfresh code')
      · exact absurd (hid.trans hid'.symm) (hfresh code)
      · exact h.distinct code code' id hid hid'
  · exact hk.sound h.sound
  · intro code
    rw [Keyed.mem_keys_insert, h.mem_keys, List.map_append, List.mem_append, List.map_cons,
      List.map_nil, List.mem_singleton]

/-! ### The shapes of the elements -/

lemma draws_boxed {value : String} {style : Style} (hlook : e.look = (value, style)) (b : Box)
    (k : Canvas) : (boxed value style b).Leaves k (Draws e k) where
  grows := (drawsShape_boxed value style b k).grows
  result := by
    refine ⟨rfl, _, Canvas.mem_put k _, rfl, rfl, rfl, ?_, ?_⟩
    · rw [hlook]
      rfl
    · rw [hlook]
      rfl

lemma Draws.isShape (h : Draws e k id k') : k'.IsShape id := by
  obtain ⟨-, c, hc, hcid, hshown⟩ := h
  exact ⟨c, hc, hcid, hshown.vertex⟩

lemma Draws.grows {k'' : Canvas} (h : Draws e k id k') (hk : k'.Grows k'') : Draws e k id k'' := by
  obtain ⟨hid, c, hc, hshown⟩ := h
  exact ⟨hid, c, hk.cells hc, hshown⟩

lemma draws_drawState (hlook : e.look =
      (e.label, if e.descriptions.isEmpty then plainStyle e else describedStyle e))
    (b : Box) (k : Canvas) : (drawState e b).Leaves k (Draws e k) := by
  unfold drawState
  split
  · next hempty =>
    rw [if_pos hempty] at hlook
    exact draws_boxed hlook b k
  · next hempty =>
    rw [if_neg hempty] at hlook
    refine (draws_boxed hlook b k).bind fun id k₁ _ hid => ?_
    refine (adds_part hid.isShape _ _ _ _ _ _).bind fun _ k₂ h₂ _ => ?_
    exact Leaves.pure (hid.grows h₂)

lemma draws_drawLeaf (hleaf : e.isComposite = false) (b : Box) (k : Canvas) :
    (drawLeaf e b).Leaves k (Draws e k) := by
  have hlook : ∀ look, e.look = look ↔ _ = look := fun look => by
    rw [Element.look, hleaf, if_neg Bool.false_ne_true]
  unfold drawLeaf
  cases hkind : e.kind with
  | final =>
    refine (draws_boxed ((hlook _).2 (by rw [hkind])) b k).bind fun id k₁ _ hid => ?_
    refine (drawsShape_boxed _ _ _ k₁).bind fun _ k₂ h₂ _ => ?_
    exact Leaves.pure (hid.grows h₂)
  | state => exact draws_drawState ((hlook _).2 (by rw [hkind])) b k
  | _ => exact draws_boxed ((hlook _).2 (by rw [hkind])) b k

lemma drawn_drawComposites (h : d.Drawn k table done) {ps : List Placed}
    (hps : ∀ p ∈ ps, d.elements.get? p.element.code = some p.element) :
    (drawComposites table ps).Leaves k fun table' k' =>
      d.Drawn k' table' (done ++ (ps.map Placed.element).filter Element.isComposite) := by
  induction ps generalizing k table done with
  | nil => exact Leaves.pure (by rwa [List.map_nil, List.filter_nil, List.append_nil])
  | cons p rest ih =>
    obtain ⟨hp, hrest⟩ := List.forall_mem_cons.1 hps
    unfold drawComposites
    rw [List.map_cons]
    split
    · next hcomposite =>
      have hlook : p.element.look = (p.element.label, compositeStyle p.element) := if_pos hcomposite
      rw [List.filter_cons_of_pos hcomposite, List.append_cons]
      refine (draws_boxed hlook p.box k).bind fun id k₁ h₁ hid => ?_
      refine (adds_drawSeparators _ _ k₁).bind fun _ k₂ h₂ _ => ?_
      exact ih ((h.insert h₁ hp hid).grows h₂) hrest
    · next hleaf =>
      rw [List.filter_cons_of_neg hleaf]
      exact ih h hrest

lemma drawn_drawLeaves (h : d.Drawn k table done) {ps : List Placed}
    (hps : ∀ p ∈ ps, d.elements.get? p.element.code = some p.element) :
    (drawLeaves table ps).Leaves k fun table' k' =>
      d.Drawn k' table' (done ++ (ps.map Placed.element).filter fun e => !e.isComposite) := by
  induction ps generalizing k table done with
  | nil => exact Leaves.pure (by rwa [List.map_nil, List.filter_nil, List.append_nil])
  | cons p rest ih =>
    obtain ⟨hp, hrest⟩ := List.forall_mem_cons.1 hps
    unfold drawLeaves
    rw [List.map_cons]
    split
    · next hcomposite =>
      rw [List.filter_cons_of_neg (by simp [hcomposite])]
      exact ih h hrest
    · next hleaf =>
      rw [Bool.not_eq_true] at hleaf
      rw [List.filter_cons_of_pos (by simp [hleaf]), List.append_cons]
      refine (draws_drawLeaf hleaf p.box k).bind fun id k₁ h₁ hid => ?_
      exact ih (h.insert h₁ hp hid) hrest

/-! ### The connectors of the transitions -/

lemma exists_cells_drawTransitions (table : Keyed String) (ts : List Transition) (k : Canvas) :
    ∃ after, ((drawTransitions table ts).run k).2.cells = k.cells ++ after ∧
      List.Forall₂ (fun t c => t.ShownBy table k.parent c)
        (ts.filter (Transition.isBetween table)) after := by
  induction ts generalizing k with
  | nil => exact ⟨[], (List.append_nil _).symm, .nil⟩
  | cons t rest ih =>
    unfold drawTransitions
    split
    · next source target hsource htarget =>
      obtain ⟨after, hcells, hafter⟩ :=
        ih (k.put fun id => Cell.connector id (Label.html (t.label.getD ""))
          (transitionStyle t).render k.parent source target [])
      refine ⟨_, hcells.trans (List.append_assoc _ _ _), ?_⟩
      have hbetween : t.isBetween table = true := by
        simp [Transition.isBetween, Keyed.contains, hsource, htarget]
      rw [List.filter_cons_of_pos hbetween]
      exact .cons ⟨rfl, rfl, rfl, rfl, hsource.symm, htarget.symm⟩ hafter
    · next hnone =>
      have hbetween : ¬ t.isBetween table = true := by
        simp only [Transition.isBetween, Keyed.contains, Bool.and_eq_true,
          Option.isSome_iff_exists]
        rintro ⟨⟨source, hsource⟩, target, htarget⟩
        exact hnone source target hsource htarget
      rw [List.filter_cons_of_neg hbetween]
      exact ih k

lemma shown_drawTransitions (h : d.Drawn k table done) :
    (drawTransitions table d.transitions).Leaves k fun _ k' =>
      d.Shown k'.parent k'.cells table := by
  have hgrows := (adds_drawTransitions h.shows d.transitions).grows
  obtain ⟨after, hcells, hafter⟩ := exists_cells_drawTransitions table d.transitions k
  refine ⟨hgrows, (h.grows hgrows).toTabled, k.cells, after, hcells, ?_⟩
  rwa [hgrows.parent]

/-! ### The whole drawing -/

/-- The elements of a layout, in the order in which they are drawn. -/
def drawingOrder (ps : List Placed) : List Element :=
  (ps.map Placed.element).filter Element.isComposite ++
    (ps.map Placed.element).filter fun e => !e.isComposite

lemma mem_drawingOrder {ps : List Placed} : e ∈ drawingOrder ps ↔ e ∈ ps.map Placed.element := by
  rw [drawingOrder, List.mem_append, List.mem_filter, List.mem_filter, ← and_or_left]
  cases e.isComposite <;> simp

/-- The codes of the elements of a layout are those of the elements from which the steps end. -/
lemma mem_code_drawingOrder_iff (hd : d.Consistent) (x y : Rat) (c : String) :
    c ∈ (drawingOrder (d.layout x y).shapes).map Element.code ↔
      c ∈ d.elements.keys ∧ Rooted d.parent? c := by
  rw [List.mem_map, Keyed.mem_keys_iff]
  constructor
  · rintro ⟨e, he, rfl⟩
    obtain ⟨hget, hrooted⟩ := (mem_map_element_shapes_iff hd x y).1 (mem_drawingOrder.1 he)
    exact ⟨⟨e, hget⟩, hrooted⟩
  · rintro ⟨⟨e, he⟩, hrooted⟩
    obtain rfl := hd.code c e he
    exact ⟨e, mem_drawingOrder.2 ((mem_map_element_shapes_iff hd x y).2 ⟨he, hrooted⟩), rfl⟩

lemma shown_sketch (hd : d.Consistent) (hk : k.Sound) :
    d.sketch.Leaves k fun _ k' => ∃ table, d.Shown k'.parent k'.cells table ∧
      ∀ c, c ∈ table.keys ↔ c ∈ d.elements.keys ∧ Rooted d.parent? c := by
  unfold sketch
  refine (adds_drawTitle d k).bind fun top k₁ h₁ _ => ?_
  have hstart : d.Drawn k₁ Keyed.empty [] :=
    ⟨⟨fun _ _ h => (nomatch h), fun _ _ _ h => (nomatch h)⟩, h₁.sound hk, fun _ => Iff.rfl⟩
  have hget : ∀ p ∈ (d.layout margin top).shapes,
      d.elements.get? p.element.code = some p.element := fun p hp =>
    ((mem_map_element_shapes_iff hd margin top).1 (List.mem_map_of_mem hp)).1
  refine (drawn_drawComposites hstart hget).bind fun _ k₂ _ hcomposites => ?_
  refine (drawn_drawLeaves hcomposites hget).bind fun table k₃ _ hleaves => ?_
  refine (adds_drawNotes hleaves.shows _ _ _ _).bind fun _ k₄ h₄ _ => ?_
  refine (shown_drawTransitions (hleaves.grows h₄)).imp fun _ k' _ hshown => ?_
  refine ⟨table, hshown, fun c => ?_⟩
  rw [hleaves.mem_keys, List.nil_append, ← mem_code_drawingOrder_iff hd margin top, drawingOrder]

/-- The drawing has a shape for exactly the elements from which the steps to the parent end, and a
connector for each transition between two of them. -/
theorem exists_shown_draw (hd : d.Consistent) (parent : String) :
    ∃ table, d.Shown parent (d.draw parent) table ∧
      ∀ c, c ∈ table.keys ↔ c ∈ d.elements.keys ∧ Rooted d.parent? c := by
  have hstart : Canvas.Sound { parent := parent } := ⟨rfl, fun _ hc => nomatch hc⟩
  have h := shown_sketch hd hstart
  have hparent := h.grows.parent
  obtain ⟨table, hshown, hkeys⟩ := h.result
  rw [hparent] at hshown
  exact ⟨table, hshown, hkeys⟩

lemma forall_rooted_read_iff (text : String) :
    (∀ c ∈ (read text).elements.keys, Rooted (read text).parent? c) ↔
      Placement.RingFree (placements text) := by
  have hparent : (read text).parent? = Placement.holderOf (placements text) :=
    funext (parent?_read text)
  rw [← Placement.forall_rooted_iff, ← hparent]
  refine ⟨fun h c => ?_, fun h c _ => h c⟩
  by_cases hc : c ∈ (read text).elements.keys
  · exact h c hc
  · -- what is not in the diagram has no parent
    refine .top (Option.eq_none_iff_forall_ne_some.2 fun p hp => hc ?_)
    exact mem_keys_of_parent? hp

/-- The drawing of a text shows exactly the elements that are found from the top, which are those
from which the steps to the parent end, and the transitions between them.  All steps end if and only
if no placement of the text puts a state into one that lies in it, and then the drawing shows every
element and every transition. -/
theorem shown_read (text parent : String) :
    ((∀ c ∈ (read text).elements.keys, Rooted (read text).parent? c) ↔
      Placement.RingFree (placements text)) ∧
    (∀ c ∈ (read text).elements.keys, (read text).Reached c ↔ Rooted (read text).parent? c) ∧
    ∃ table, (read text).Shown parent ((read text).draw parent) table ∧
      (∀ c, c ∈ table.keys ↔ c ∈ (read text).elements.keys ∧ Rooted (read text).parent? c) ∧
      (Placement.RingFree (placements text) →
        (read text).elements.keys ⊆ table.keys ∧
        (read text).transitions.filter (Transition.isBetween table) = (read text).transitions) := by
  obtain ⟨table, hshown, hkeys⟩ := exists_shown_draw (consistent_read text) parent
  refine ⟨forall_rooted_read_iff text, fun c => reached_iff_rooted (consistent_read text),
    table, hshown, hkeys, fun hfree => ?_⟩
  have hall : ∀ c ∈ (read text).elements.keys, c ∈ table.keys := fun c hc =>
    (hkeys c).2 ⟨hc, (forall_rooted_read_iff text).2 hfree c hc⟩
  refine ⟨hall, List.filter_eq_self.2 fun t ht => ?_⟩
  obtain ⟨hsource, htarget⟩ := mem_keys_of_mem_transitions ht
  rw [Transition.isBetween, Bool.and_eq_true]
  exact ⟨Keyed.contains_iff.2 (hall _ hsource), Keyed.contains_iff.2 (hall _ htarget)⟩

/-- A composite state that was closed can be opened again and take in the state in which it lies.
Then neither is found from the top, and nothing is drawn. -/
theorem hidden_read_ring :
    let d := read "state B \x7b\nstate A\n\x7d\nstate A \x7b\nstate B\n\x7d\nA --> B"
    d.elements.keys = ["B", "A"] ∧ d.parent? "B" = some "A" ∧ d.parent? "A" = some "B" ∧
      (∀ c ∈ d.elements.keys, ¬ Rooted d.parent? c ∧ ¬ d.Reached c) ∧
      d.transitions.length = 1 ∧ d.draw "grp" = [] := by
  intro d
  have hkeys : d.elements.keys = ["B", "A"] := rfl
  have hB : d.parent? "B" = some "A" := rfl
  have hA : d.parent? "A" = some "B" := rfl
  have hring : ∀ c ∈ d.elements.keys, ¬ Rooted d.parent? c := by
    have hBA : Inside d.parent? "A" "B" := .single hA
    have hAB : Inside d.parent? "B" "A" := .single hB
    intro c hc hrooted
    rw [hkeys, List.mem_cons, List.mem_singleton] at hc
    rcases hc with rfl | rfl
    · exact hrooted.not_inside hB hBA
    · exact hrooted.not_inside hA hAB
  refine ⟨hkeys, hB, hA, fun c hc => ⟨hring c hc, fun hreached => ?_⟩, rfl, rfl⟩
  exact hring c hc ((reached_iff_rooted (consistent_read _) hc).1 hreached)

end Diagram
end State
end UmlDraw
