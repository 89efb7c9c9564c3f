/-
# Drawings without loose ends

A drawing grows piece by piece on a canvas.  What a piece adds is told by what its result is on the
canvas that it leaves, and by how many shapes it adds.

The main statements are

* `Document.nodup_numberedIds`: numbered ids are different;
* `Sketch.Leaves.bind`: what two pieces of drawing leave one after the other;
* `Sketch.Adds.connected`: what a piece of drawing adds to an empty canvas;
* `Sketch.AddsShapes.bind`: the shapes of two pieces of drawing one after the other;
* `Sketch.AddsShapes.countP_cells`: the shapes of a whole drawing.
-/
import Mathlib.Tactic.Lemma
import UmlDraw.Data.Keyed
import UmlDraw.Drawing.Canvas

namespace UmlDraw

/-! ## Ids, parents and ends

In a drawing each id names one cell, a cell lies in the cell around the drawing or in a cell of it,
and a connector joins two of its shapes.  Canvases keep that while they grow, if a piece of drawing
refers to nothing but ids that earlier pieces returned.  So a piece of drawing is described by what
its result is on the canvas that it leaves, and descriptions are put together step by step. -/

namespace Document

lemma digits_injective {m n : Nat} (h : Decimal.digits m = Decimal.digits n) : m = n := by
  have hm : Nat.ofDigitChars 10 (Decimal.digits m) 0 = m := Nat.ofDigitChars_ten_toDigits
  have hn : Nat.ofDigitChars 10 (Decimal.digits n) 0 = n := Nat.ofDigitChars_ten_toDigits
  rw [← hm, ← hn, h]

lemma numberedId_injective {stem : String} {m n : Nat}
    (h : numberedId stem m = numberedId stem n) : m = n := by
  have hchars := congrArg String.toList h
  simp only [numberedId, String.toList_append, String.toList_ofList, List.append_assoc,
    List.append_cancel_left_eq] at hchars
  exact digits_injective hchars

lemma nodup_numberedIds (stem : String) (count : Nat) : (numberedIds stem count).Nodup := by
  unfold numberedIds List.Nodup
  rw [List.pairwise_map]
  refine List.Pairwise.imp ?_ List.nodup_range
  intro m n hne h
  exact hne (Nat.succ.inj (numberedId_injective h))

lemma numberedIds_succ (stem : String) (count : Nat) :
    numberedIds stem (count + 1) = numberedIds stem count ++ [numberedId stem (count + 1)] := by
  simp [numberedIds, List.range_succ]

end Document

namespace Cell

/-- One of the cells has the id. -/
def IsId (cells : List Cell) (id : String) : Prop :=
  id ∈ cells.map Cell.id

/-- One of the cells is a shape with the id. -/
def IsShapeId (cells : List Cell) (id : String) : Prop :=
  ∃ c ∈ cells, c.id = id ∧ c.vertex = true

/-- A cell of a drawing in the given parent lies in it or in a cell of the drawing, and has two
shapes of the drawing as its ends or no ends at all. -/
structure Attached (parent : String) (cells : List Cell) (c : Cell) : Prop where
  parent : c.parent = parent ∨ IsId cells c.parent
  ends : (c.source = none ∧ c.target = none) ∨
    ∃ source target, c.source = some source ∧ c.target = some target ∧
      IsShapeId cells source ∧ IsShapeId cells target

/-- Cells that make a drawing in the given parent: their ids are the first numbered ids, each used
once, and each cell is attached. -/
structure Connected (parent : String) (cells : List Cell) : Prop where
  ids : (cells.map Cell.id).Perm (Document.numberedIds "puml" cells.length)
  nodup : (cells.map Cell.id).Nodup
  attached : ∀ c ∈ cells, c.Attached parent cells

lemma IsShapeId.isId {cells : List Cell} {id : String} (h : IsShapeId cells id) :
    IsId cells id := by
  obtain ⟨c, hc, rfl, -⟩ := h
  exact List.mem_map_of_mem hc

lemma IsId.mono {cells cells' : List Cell} {id : String} (h : IsId cells id)
    (hsub : cells ⊆ cells') : IsId cells' id :=
  List.map_subset Cell.id hsub h

lemma IsShapeId.mono {cells cells' : List Cell} {id : String} (h : IsShapeId cells id)
    (hsub : cells ⊆ cells') : IsShapeId cells' id := by
  obtain ⟨c, hc, h⟩ := h
  exact ⟨c, hsub hc, h⟩

lemma Attached.mono {parent : String} {cells cells' : List Cell} {c : Cell}
    (h : c.Attached parent cells) (hsub : cells ⊆ cells') : c.Attached parent cells' where
  parent := h.parent.imp_right fun hid => hid.mono hsub
  ends := by
    refine h.ends.imp_right ?_
    rintro ⟨source, target, hs, ht, hsource, htarget⟩
    exact ⟨source, target, hs, ht, hsource.mono hsub, htarget.mono hsub⟩

lemma connected_of_perm {parent : String} {cells : List Cell}
    (hids : (cells.map Cell.id).Perm (Document.numberedIds "puml" cells.length))
    (hattached : ∀ c ∈ cells, c.Attached parent cells) : Connected parent cells :=
  ⟨hids, hids.nodup_iff.2 (Document.nodup_numberedIds _ _), hattached⟩

end Cell

namespace Canvas

/-- The cells so far have the first numbered ids, in order, and each is attached. -/
structure Sound (k : Canvas) : Prop where
  ids : k.cells.map Cell.id = Document.numberedIds "puml" k.cells.length
  attached : ∀ c ∈ k.cells, c.Attached k.parent k.cells

/-- The second canvas comes from the first one by drawing further cells. -/
structure Grows (k k' : Canvas) : Prop where
  parent : k'.parent = k.parent
  cells : k.cells ⊆ k'.cells
  sound : k.Sound → k'.Sound

/-- The id is that of a shape on the canvas. -/
def IsShape (k : Canvas) (id : String) : Prop :=
  Cell.IsShapeId k.cells id

/-- The id, if there is one, is that of a shape on the canvas. -/
def IsEnd (k : Canvas) (end? : Option String) : Prop :=
  ∀ id, end? = some id → k.IsShape id

/-- All cells of a table are shapes on the canvas. -/
def Shows (k : Canvas) (cells : Keyed String) : Prop :=
  ∀ code, k.IsEnd (cells.get? code)

lemma Grows.refl (k : Canvas) : k.Grows k :=
  ⟨rfl, fun _ h => h, fun h => h⟩

lemma Grows.trans {k k' k'' : Canvas} (h : k.Grows k') (h' : k'.Grows k'') : k.Grows k'' :=
  ⟨h'.parent.trans h.parent, fun _ hc => h'.cells (h.cells hc), fun hk => h'.sound (h.sound hk)⟩

lemma IsShape.grows {k k' : Canvas} {id : String} (h : k.IsShape id) (hk : k.Grows k') :
    k'.IsShape id :=
  Cell.IsShapeId.mono h hk.cells

lemma IsEnd.grows {k k' : Canvas} {end? : Option String} (h : k.IsEnd end?) (hk : k.Grows k') :
    k'.IsEnd end? :=
  fun id hid => (h id hid).grows hk

lemma Shows.grows {k k' : Canvas} {cells : Keyed String} (h : k.Shows cells) (hk : k.Grows k') :
    k'.Shows cells :=
  fun code => (h code).grows hk

@[simp]
lemma isEnd_none (k : Canvas) : k.IsEnd none :=
  fun _ h => nomatch h

@[simp]
lemma isEnd_some {k : Canvas} {id : String} : k.IsEnd (some id) ↔ k.IsShape id := by
  simp [IsEnd]

lemma IsEnd.or {k : Canvas} {a b : Option String} (ha : k.IsEnd a) (hb : k.IsEnd b) :
    k.IsEnd (a.or b) := by
  cases a with
  | none => exact hb
  | some id => exact ha

lemma IsEnd.getD {k : Canvas} {end? : Option String} {id : String} (h : k.IsEnd end?)
    (hid : k.IsShape id) : k.IsShape (end?.getD id) := by
  cases end? with
  | none => exact hid
  | some id' => exact isEnd_some.1 h

lemma shows_empty (k : Canvas) : k.Shows Keyed.empty :=
  fun _ => isEnd_none k

lemma Shows.insert {k : Canvas} {cells : Keyed String} {code id : String} (h : k.Shows cells)
    (hid : k.IsShape id) : k.Shows (cells.insert code id) := by
  intro other
  rw [Keyed.get?_insert]
  split
  · exact isEnd_some.2 hid
  · exact h other

/-- Drawing a cell that is attached to the canvas. -/
lemma grows_put {k : Canvas} {make : String → Cell} (hid : ∀ id, (make id).id = id)
    (hattached : (make k.nextId).Attached k.parent k.cells) : k.Grows (k.put make) := by
  have hsub : k.cells ⊆ (k.put make).cells := fun c hc => List.mem_append_left _ hc
  refine ⟨rfl, hsub, fun hk => ⟨?_, ?_⟩⟩
  · simp only [put, List.map_append, List.map_cons, List.map_nil, List.length_append,
      List.length_cons, List.length_nil, Document.numberedIds_succ, hk.ids, hid, nextId]
  · intro c hc
    -- what the earlier cells are attached to stays on the canvas
    rcases List.mem_append.1 hc with hc | hc
    · exact (hk.attached c hc).mono hsub
    · rw [List.mem_singleton.1 hc]
      exact hattached.mono hsub

lemma mem_put (k : Canvas) (make : String → Cell) : make k.nextId ∈ (k.put make).cells :=
  List.mem_append_right _ (List.mem_singleton_self _)

lemma Sound.connected {k : Canvas} (h : k.Sound) : Cell.Connected k.parent k.cells :=
  Cell.connected_of_perm (h.ids ▸ List.Perm.refl _) h.attached

end Canvas

namespace Sketch

variable {α β : Type} {s : Sketch α} {k : Canvas}

/-- Drawn on a canvas, the piece of drawing adds cells to it, and its result is as described on the
canvas that it leaves. -/
structure Leaves (s : Sketch α) (k : Canvas) (Q : α → Canvas → Prop) : Prop where
  grows : k.Grows (s.run k).2
  result : Q (s.run k).1 (s.run k).2

/-- Drawn on a canvas, the piece of drawing adds cells to it. -/
def Adds (s : Sketch α) (k : Canvas) : Prop :=
  s.Leaves k fun _ _ => True

/-- Drawn on a canvas, the piece of drawing adds a shape and returns its id. -/
def DrawsShape (s : Sketch String) (k : Canvas) : Prop :=
  s.Leaves k fun id k' => k'.IsShape id

lemma Leaves.pure {a : α} {Q : α → Canvas → Prop} (h : Q a k) :
    (Pure.pure a : Sketch α).Leaves k Q :=
  ⟨Canvas.Grows.refl k, h⟩

lemma Leaves.bind {f : α → Sketch β} {Q : α → Canvas → Prop} {R : β → Canvas → Prop}
    (hs : s.Leaves k Q) (hf : ∀ a k', k.Grows k' → Q a k' → (f a).Leaves k' R) :
    (s >>= f).Leaves k R := by
  have hrest := hf _ _ hs.grows hs.result
  exact ⟨hs.grows.trans hrest.grows, hrest.result⟩

lemma Leaves.imp {Q R : α → Canvas → Prop} (hs : s.Leaves k Q)
    (h : ∀ a k', k.Grows k' → Q a k' → R a k') : s.Leaves k R :=
  ⟨hs.grows, h _ _ hs.grows hs.result⟩

lemma adds_pure (a : α) (k : Canvas) : (Pure.pure a : Sketch α).Adds k :=
  Leaves.pure trivial

lemma leaves_put {make : String → String → Cell} (hid : ∀ id parent, (make id parent).id = id)
    (hattached : (make k.nextId k.parent).Attached k.parent k.cells) :
    (put make).Leaves k fun id k' => make id k.parent ∈ k'.cells where
  grows := Canvas.grows_put (fun id => hid id _) hattached
  result := Canvas.mem_put k _

lemma drawsShape_shape (value : String) (style : Style) (x y width height : Number) (k : Canvas) :
    (shape value style x y width height).DrawsShape k := by
  unfold shape
  refine (leaves_put (fun _ _ => rfl) ⟨.inl rfl, .inl ⟨rfl, rfl⟩⟩).imp ?_
  intro id k' _ hmem
  exact ⟨_, hmem, rfl, rfl⟩

lemma adds_part {owner : String} (howner : k.IsShape owner) (value : String) (style : Style)
    (x y width height : Number) : (part owner value style x y width height).Adds k := by
  unfold part
  refine (leaves_put (fun _ _ => rfl) ⟨.inr howner.isId, .inl ⟨rfl, rfl⟩⟩).bind ?_
  intro _ k' _ _
  exact adds_pure _ k'

lemma leaves_connect {source target : String} (hsource : k.IsShape source)
    (htarget : k.IsShape target) (value : String) (style : Style) :
    (connect value style source target).Leaves k fun id k' => Cell.IsId k'.cells id := by
  unfold connect
  refine (leaves_put (fun _ _ => rfl)
    ⟨.inl rfl, .inr ⟨source, target, rfl, rfl, hsource, htarget⟩⟩).imp ?_
  intro id k' _ hmem
  exact List.mem_map_of_mem hmem

lemma adds_line (value : String) (style : Style) (start stop : Point) (points : List Point)
    (k : Canvas) : (line value style start stop points).Adds k := by
  unfold line
  refine (leaves_put (fun _ _ => rfl) ⟨.inl rfl, .inl ⟨rfl, rfl⟩⟩).bind ?_
  intro _ k' _ _
  exact adds_pure _ k'

/-- A piece of drawing that adds to the empty canvas makes a drawing without loose ends. -/
theorem Adds.connected {parent : String} (h : s.Adds { parent := parent }) :
    Cell.Connected parent (s.cells parent) := by
  have hempty : Canvas.Sound { parent := parent } := ⟨rfl, fun _ hc => nomatch hc⟩
  have hsound := (h.grows.sound hempty).connected
  rwa [h.grows.parent] at hsound

end Sketch

namespace Mark

lemma adds_draw (m : Mark) (k : Canvas) : m.draw.Adds k := by
  cases m with
  | shape value style x y width height =>
    exact (Sketch.drawsShape_shape value style x y width height k).bind fun _ k' _ _ =>
      Sketch.adds_pure _ k'
  | line value style start between stop => exact Sketch.adds_line value style start stop between k

lemma adds_drawAll (ms : List Mark) (k : Canvas) : (drawAll ms).Adds k := by
  induction ms generalizing k with
  | nil => exact Sketch.adds_pure _ k
  | cons m rest ih => exact (adds_draw m k).bind fun _ k' _ _ => ih k'

end Mark

/-! ## How many shapes a drawing has

A piece of drawing adds as many shapes to one canvas as to another, whatever the ids are that it
finds there.  So the number of its shapes is the sum of those of its parts; connectors and lines
count nothing. -/


/-- The number of shapes on a canvas. -/
def Canvas.shapeCount (k : Canvas) : Nat :=
  k.cells.countP Cell.vertex

lemma Canvas.shapeCount_put (k : Canvas) (make : String → Cell) :
    (k.put make).shapeCount = k.shapeCount + if (make k.nextId).vertex then 1 else 0 := by
  rw [shapeCount, put, List.countP_append, List.countP_singleton, shapeCount]

namespace Sketch

variable {α β : Type} {s : Sketch α} {m n : Nat}

/-- Drawn on any canvas, the piece of drawing adds this number of shapes to it. -/
def AddsShapes (s : Sketch α) (n : Nat) : Prop :=
  ∀ k, (s.run k).2.shapeCount = k.shapeCount + n

lemma addsShapes_pure (a : α) : (pure a : Sketch α).AddsShapes 0 :=
  fun _ => rfl

lemma AddsShapes.bind {f : α → Sketch β} (hs : s.AddsShapes m) (hf : ∀ a, (f a).AddsShapes n) :
    (s >>= f).AddsShapes (m + n) := by
  intro k
  calc
    ((s >>= f).run k).2.shapeCount = (s.run k).2.shapeCount + n := hf _ _
    _ = k.shapeCount + (m + n) := by rw [hs, Nat.add_assoc]

/-- A piece of drawing without shapes goes before one that is counted. -/
lemma AddsShapes.skip {f : α → Sketch β} (hs : s.AddsShapes 0) (hf : ∀ a, (f a).AddsShapes n) :
    (s >>= f).AddsShapes n :=
  Nat.zero_add n ▸ hs.bind hf

/-- A piece of drawing that is counted goes before one without shapes. -/
lemma AddsShapes.last {f : α → Sketch β} (hs : s.AddsShapes n) (hf : ∀ a, (f a).AddsShapes 0) :
    (s >>= f).AddsShapes n :=
  hs.bind hf

/-- A piece of drawing that is counted goes before a result. -/
lemma AddsShapes.returns {f : α → β} (hs : s.AddsShapes n) :
    (s >>= fun a => pure (f a) : Sketch β).AddsShapes n :=
  hs.last fun a => addsShapes_pure (f a)

lemma addsShapes_shape (value : String) (style : Style) (x y width height : Number) :
    (shape value style x y width height).AddsShapes 1 :=
  fun k => k.shapeCount_put _

lemma addsShapes_connect (value : String) (style : Style) (source target : String) :
    (connect value style source target).AddsShapes 0 :=
  fun k => k.shapeCount_put _

/-- The shapes of a drawing on the empty canvas. -/
theorem AddsShapes.countP_cells (hs : s.AddsShapes n) (parent : String) :
    (s.cells parent).countP Cell.vertex = n := by
  have hcount := hs { parent := parent }
  exact hcount.trans (Nat.zero_add n)

end Sketch
end UmlDraw
