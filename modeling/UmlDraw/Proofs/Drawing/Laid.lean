/-
# Where the shapes of a drawing lie

A piece of drawing appends cells whose numbers are exact, and its shapes lie in certain places.  A
shape inside another one is placed by that one, so only the shapes directly in the cell around the
drawing count, and nothing is said if that cell has the id of one of the cells.

From left to right, a shape of a drawing is a *strip*: it has a left side and a width.  Which strips
the shapes of a drawing have is told piece by piece, whatever their order.

The main statements are

* `Sketch.Lays.bind`: what two pieces of drawing append one after the other;
* `Relation.lays_drawNotes` and `Relation.lays_drawLinks`: where notes and links lie;
* `Sketch.SpansAnd.bind`: the strips of two pieces of drawing one after the other;
* `Sketch.Spans.perm_cells`: the strips of a whole drawing.
-/
import UmlDraw.Proofs.Drawing.Cluster
import UmlDraw.Proofs.Layout.Layering
import UmlDraw.Proofs.Number.Value

namespace UmlDraw

/-- A shape lies neither to the left of the cell around it nor above it. -/
structure Geometry.StartsInside (g : Geometry) : Prop where
  x : g.x.AtLeast 0
  y : g.y.AtLeast 0

namespace Cell

/-- The numbers of a cell are exact. -/
def IsExact (c : Cell) : Prop :=
  ∀ n ∈ c.numbers, n.IsExact

/-- The numbers of some cells are exact, and the shapes among them that lie directly in a parent
have styles and places as described, unless the parent has the id of one of the cells. -/
structure Laid (parent : String) (P : String → Geometry → Prop) (cs : List Cell) : Prop where
  exact : ∀ c ∈ cs, c.IsExact
  place : parent ∉ cs.map Cell.id → ∀ c ∈ cs, ∀ g, c.vertex = true → c.parent = parent →
    c.geometry = some g → P c.style g

variable {parent : String} {P : String → Geometry → Prop} {c : Cell} {cs cs' : List Cell}

lemma laid_nil : Laid parent P [] := by
  constructor <;> simp

lemma Laid.append (h : Laid parent P cs) (h' : Laid parent P cs') :
    Laid parent P (cs ++ cs') where
  exact := List.forall_mem_append.2 ⟨h.exact, h'.exact⟩
  place := by
    intro hparent
    rw [List.map_append, List.mem_append, not_or] at hparent
    exact List.forall_mem_append.2 ⟨h.place hparent.1, h'.place hparent.2⟩

/-- What lies in one of the cells can lie anywhere in it. -/
lemma Laid.cons_inner (hc : Laid parent P [c]) (hexact : ∀ i ∈ cs, i.IsExact)
    (hinner : ∀ i ∈ cs, i.parent = c.id) : Laid parent P (c :: cs) where
  exact := List.forall_mem_cons.2 ⟨hc.exact c (List.mem_singleton_self c), hexact⟩
  place := by
    intro hparent
    rw [List.map_cons, List.mem_cons, not_or] at hparent
    refine List.forall_mem_cons.2 ⟨?_, ?_⟩
    · exact hc.place (by simpa using hparent.1) c (List.mem_singleton_self c)
    · intro i hi g _ hi' _
      exact absurd (hi'.symm.trans (hinner i hi)) hparent.1

end Cell

namespace Sketch

variable {α β : Type} {s : Sketch α} {parent : String} {P : String → Geometry → Prop}
  {Q : α → Prop} {R : β → Prop}

/-- Drawn on any canvas in a parent, the piece of drawing appends cells that lie as described, and
its result is as described. -/
def LaysAnd (s : Sketch α) (parent : String) (P : String → Geometry → Prop) (Q : α → Prop) : Prop :=
  s.Puts parent fun a cs => Q a ∧ Cell.Laid parent P cs

/-- Drawn on any canvas in a parent, the piece of drawing appends cells that lie as described. -/
def Lays (s : Sketch α) (parent : String) (P : String → Geometry → Prop) : Prop :=
  s.LaysAnd parent P fun _ => True

lemma LaysAnd.pure {a : α} (h : Q a) : (Pure.pure a : Sketch α).LaysAnd parent P Q :=
  Puts.pure ⟨h, Cell.laid_nil⟩

lemma LaysAnd.bind {f : α → Sketch β} (hs : s.LaysAnd parent P Q)
    (hf : ∀ a, Q a → (f a).LaysAnd parent P R) : (s >>= f).LaysAnd parent P R :=
  Puts.bind hs fun a _ ⟨ha, hcs⟩ => (hf a ha).imp fun _ _ ⟨hb, hcs'⟩ => ⟨hb, hcs.append hcs'⟩

lemma lays_of_puts (hs : s.Puts parent fun _ cs => Cell.Laid parent P cs) : s.Lays parent P := by
  unfold Lays LaysAnd
  exact hs.imp fun _ _ h => ⟨trivial, h⟩

lemma lays_pure (a : α) : (Pure.pure a : Sketch α).Lays parent P :=
  LaysAnd.pure trivial

lemma Lays.bind {f : α → Sketch β} (hs : s.Lays parent P) (hf : ∀ a, (f a).LaysAnd parent P R) :
    (s >>= f).LaysAnd parent P R :=
  LaysAnd.bind hs fun a _ => hf a

/-- The cells of a whole drawing. -/
lemma Lays.laid (hs : s.Lays parent P) : Cell.Laid parent P (s.cells parent) := by
  unfold Lays LaysAnd at hs
  obtain ⟨_, -, hcs⟩ := hs.cells
  exact hcs

lemma laid_shape {id value : String} {style : Style} {x y width height : Number}
    (hnumbers : ∀ n ∈ [x, y, width, height], n.IsExact)
    (h : P style.render { x := x, y := y, width := width, height := height }) :
    Cell.Laid parent P [Cell.shape id value style.render parent x y width height] where
  exact := List.forall_mem_singleton.2 hnumbers
  place := by
    intro _ c hc g _ _ hg
    obtain rfl := List.mem_singleton.1 hc
    obtain rfl := Option.some.inj hg
    exact h

lemma lays_shape {value : String} {style : Style} {x y width height : Number}
    (hnumbers : ∀ n ∈ [x, y, width, height], n.IsExact)
    (h : P style.render { x := x, y := y, width := width, height := height }) :
    (shape value style x y width height).Lays parent P := by
  refine lays_of_puts ((puts_put _).imp ?_)
  rintro id cs rfl
  exact laid_shape hnumbers h

lemma lays_boxed {value : String} {style : Style} {b : Box}
    (h : P style.render
      { x := .ratio b.x, y := .ratio b.y, width := .ratio b.width, height := .ratio b.height }) :
    (boxed value style b).Lays parent P :=
  lays_shape (by simp) h

lemma laid_connector (id value style source target : String) :
    Cell.Laid parent P [Cell.connector id value style parent source target []] := by
  constructor <;> simp [Cell.IsExact, Cell.connector, Cell.numbers, Geometry.numbers,
    Geometry.ownPoints]

lemma lays_connect (value : String) (style : Style) (source target : String) :
    (connect value style source target).Lays parent P := by
  refine lays_of_puts ((puts_put _).imp ?_)
  rintro id cs rfl
  exact laid_connector _ _ _ _ _

lemma lays_line (value : String) (style : Style) {start stop : Point}
    (hstart : start.x.IsExact ∧ start.y.IsExact) (hstop : stop.x.IsExact ∧ stop.y.IsExact) :
    (line value style start stop []).Lays parent P := by
  unfold line
  refine lays_of_puts ((puts_put _).imp ?_).returns
  rintro id cs rfl
  constructor <;> simp [Cell.IsExact, Cell.freeConnector, Cell.numbers, Geometry.numbers,
    Geometry.ownPoints, hstart, hstop]

/-- A shape inside another one lies in it. -/
lemma puts_part_exact (owner value : String) (style : Style) {x y width height : Number}
    (hnumbers : ∀ n ∈ [x, y, width, height], n.IsExact) :
    (part owner value style x y width height).Puts parent fun _ cs =>
      ∀ c ∈ cs, c.IsExact ∧ c.parent = owner := by
  unfold part
  refine ((puts_put _).imp ?_).returns
  rintro id cs rfl
  exact List.forall_mem_singleton.2 ⟨hnumbers, rfl⟩

/-- A shape with what is drawn inside it. -/
lemma LaysAnd.bind_inner {value : String} {style : Style} {x y width height : Number}
    {f : String → Sketch β} (hnumbers : ∀ n ∈ [x, y, width, height], n.IsExact)
    (h : P style.render { x := x, y := y, width := width, height := height })
    (hf : ∀ id, (f id).Puts parent fun _ cs => ∀ c ∈ cs, c.IsExact ∧ c.parent = id) :
    (shape value style x y width height >>= f).Lays parent P := by
  refine lays_of_puts ((puts_put _).bind ?_)
  rintro id cs rfl
  refine (hf _).imp fun _ cs' hcs' => ?_
  exact (laid_shape hnumbers h).cons_inner (fun c hc => (hcs' c hc).1) fun c hc => (hcs' c hc).2

end Sketch

namespace Relation

open Sketch

variable {parent : String} {P : String → Geometry → Prop}

lemma puts_drawEndLabel_exact (edgeId : String) (text : Option String) (position : Rat)
    (style : Style) :
    (drawEndLabel edgeId text position style).Puts parent fun _ cs =>
      ∀ c ∈ cs, c.IsExact ∧ c.parent = edgeId := by
  unfold drawEndLabel
  cases text.filter fun t => !t.isEmpty with
  | none => exact Puts.pure (by simp)
  | some t =>
    refine ((puts_put _).imp ?_).returns
    rintro id cs rfl
    refine List.forall_mem_singleton.2 ⟨?_, rfl⟩
    simp [Cell.IsExact, endLabel, Cell.numbers, Geometry.numbers]

lemma lays_drawLink (cells : Keyed String) (l : Link) : (drawLink cells l).Lays parent P := by
  unfold drawLink
  split
  · next source target _ _ =>
    refine lays_of_puts ((puts_put _).bind ?_)
    rintro id cs rfl
    refine (puts_drawEndLabel_exact id _ _ _).bind fun _ cs₁ h₁ => ?_
    refine (puts_drawEndLabel_exact id _ _ _).bind fun _ cs₂ h₂ => ?_
    refine (puts_drawEndLabel_exact id _ _ _).bind fun _ cs₃ h₃ => ?_
    refine (puts_drawEndLabel_exact id _ _ _).imp fun _ cs₄ h₄ => ?_
    have hinner : ∀ c ∈ cs₁ ++ (cs₂ ++ (cs₃ ++ cs₄)), c.IsExact ∧ c.parent = id :=
      List.forall_mem_append.2 ⟨h₁, List.forall_mem_append.2 ⟨h₂,
        List.forall_mem_append.2 ⟨h₃, h₄⟩⟩⟩
    exact (laid_connector _ _ _ _ _).cons_inner (fun c hc => (hinner c hc).1)
      fun c hc => (hinner c hc).2
  · exact lays_pure _

/-- Links are drawn as connectors; their labels lie in them. -/
theorem lays_drawLinks (cells : Keyed String) (ls : List Link) :
    (drawLinks cells ls).Lays parent P := by
  induction ls with
  | nil => exact lays_pure _
  | cons l rest ih => exact (lays_drawLink cells l).bind fun _ => ih

/-- A shape does not stick out of the drawing to the left, and above only if it is a note. -/
def IsPlaced (style : String) (g : Geometry) : Prop :=
  g.x.AtLeast 0 ∧ ((∃ color, style = (noteStyle color).render) ∨ g.y.AtLeast 0)

lemma isPlaced_box {b : Box} (hx : 0 ≤ b.x) (hy : 0 ≤ b.y) (style : Style) :
    IsPlaced style.render
      { x := .ratio b.x, y := .ratio b.y, width := .ratio b.width, height := .ratio b.height } :=
  ⟨Number.atLeast_ratio.2 hx, .inr (Number.atLeast_ratio.2 hy)⟩

/-- A note beside what it speaks of does not stick out to the left, if there is room for the notes
on the left. -/
lemma nonneg_of_notePlace {places : Keyed Box} {links : List Link} {n : Note} {X Y x y : Rat}
    (hplaces : places.All (Box.IsBehind X Y)) (hX : 0 ≤ X)
    (hleft : n.side = .left → (noteShape n).isSome → noteWidth + noteGap ≤ X)
    (h : notePlace places links n = some (x, y)) : 0 ≤ x := by
  have hgap : (0 : Rat) ≤ noteGap := by simp [noteGap]
  unfold notePlace at h
  dsimp only at h
  split at h
  · next code hcode =>
    obtain ⟨b, hb, h⟩ := Option.bind_eq_some_iff.1 h
    have hbehind := hplaces code b hb
    split at h
    · next hside =>
      have hroom := hleft hside (by rw [hcode]; rfl)
      have hx := hbehind.left
      obtain ⟨rfl, -⟩ := Prod.mk.inj (Option.some.inj h)
      linarith
    · obtain ⟨rfl, -⟩ := Prod.mk.inj (Option.some.inj h)
      exact hX.trans hbehind.left
    · obtain ⟨rfl, -⟩ := Prod.mk.inj (Option.some.inj h)
      exact hX.trans hbehind.left
    · have hright := hbehind.le_right
      obtain ⟨rfl, -⟩ := Prod.mk.inj (Option.some.inj h)
      linarith
  · obtain ⟨_, -, h⟩ := Option.bind_eq_some_iff.1 h
    obtain ⟨_, -, h⟩ := Option.bind_eq_some_iff.1 h
    obtain ⟨a, ha, h⟩ := Option.bind_eq_some_iff.1 h
    obtain ⟨b, hb, h⟩ := Option.bind_eq_some_iff.1 h
    have hcenter := (hplaces _ a ha).le_centerX
    have hcenter' := (hplaces _ b hb).le_centerX
    obtain ⟨rfl, -⟩ := Prod.mk.inj (Option.some.inj h)
    linarith

/-- Notes do not stick out of the drawing to the left, if there is room for those on the left. -/
theorem lays_drawNotes {places : Keyed Box} (links : List Link) {free : Rat × Rat}
    (cells : Keyed String) {ns : List Note} {X Y : Rat} (hplaces : places.All (Box.IsBehind X Y))
    (hX : 0 ≤ X) (hroom : hasNoteAt .left ns = true → noteWidth + noteGap ≤ X)
    (hfree : 0 ≤ free.1) : (drawNotes places links free cells ns).Lays parent IsPlaced := by
  induction ns generalizing free cells with
  | nil => exact lays_pure _
  | cons n rest ih =>
    rw [hasNoteAt, List.any_cons, Bool.or_eq_true] at hroom
    have hx : 0 ≤ ((notePlace places links n).getD free).1 := by
      cases hplace : notePlace places links n with
      | none => exact hfree
      | some place =>
        refine nonneg_of_notePlace hplaces hX (fun hside hshape => hroom (.inl ?_)) hplace
        rw [hside, hshape]
        rfl
    have hnext : 0 ≤ (if (notePlace places links n).isSome then free
        else (free.1 + noteWidth + noteGap, free.2)).1 := by
      split
      · exact hfree
      · simp only [noteWidth, noteGap]
        linarith
    unfold drawNotes
    refine Lays.bind (lays_boxed ⟨Number.atLeast_ratio.2 hx, .inl ⟨n.color, rfl⟩⟩) fun id => ?_
    have hrest : ∀ cells', (drawNotes places links (if (notePlace places links n).isSome then free
        else (free.1 + noteWidth + noteGap, free.2)) cells' rest).Lays parent IsPlaced :=
      fun cells' => ih cells' (fun h => hroom (.inr h)) hnext
    cases n.target.free?
    -- a free note goes on like any other
    all_goals
      dsimp only
      split
      · exact (lays_connect _ _ _ _).bind fun _ => hrest _
      · exact hrest _

end Relation

/-! ### Strips -/

/-- A shape from left to right. -/
structure Strip where
  label : String
  left : Rat
  width : Rat
deriving DecidableEq

namespace Strip

/-- The right side. -/
def right (t : Strip) : Rat :=
  t.left + t.width

/-- A strip around a center line. -/
def around (label : String) (cx width : Rat) : Strip :=
  ⟨label, cx - width / 2, width⟩

/-- A strip does not stick out between two sides. -/
structure Within (t : Strip) (left right : Rat) : Prop where
  left : left ≤ t.left
  right : t.right ≤ right

/-- The strip of a shape, if its numbers have values. -/
def ofCell? (c : Cell) : Option Strip :=
  c.geometry.bind fun g => g.x.value?.bind fun x => g.width.value?.map fun w => ⟨c.value, x, w⟩

/-- The strips of the shapes among some cells. -/
def drawn (cs : List Cell) : List (Option Strip) :=
  (cs.filter fun c => c.vertex).map ofCell?

lemma drawn_append (cs cs' : List Cell) : drawn (cs ++ cs') = drawn cs ++ drawn cs' := by
  simp only [drawn, List.filter_append, List.map_append]

lemma within_around (label : String) {cx w W : Rat} (h : w ≤ W) :
    (around label cx w).Within (cx - W / 2) (cx + W / 2) := by
  constructor <;> simp only [around, right] <;> linarith

lemma Within.mono {t : Strip} {left right left' right' : Rat} (h : t.Within left right)
    (hleft : left' ≤ left) (hright : right ≤ right') : t.Within left' right' :=
  ⟨hleft.trans h.left, h.right.trans hright⟩

lemma Within.width_le {t : Strip} {cx W : Rat} (h : t.Within (cx - W / 2) (cx + W / 2)) :
    t.width ≤ W := by
  have hleft := h.left
  have hright : t.left + t.width ≤ cx + W / 2 := h.right
  linarith

end Strip

namespace Sketch

variable {α β : Type} {s : Sketch α} {parent : String} {ts ts' : List Strip} {Q : α → Prop}
  {R : β → Prop}

/-- Drawn on any canvas in a parent, the piece of drawing appends cells, whose shapes have the given
strips in some order, and its result is as described. -/
def SpansAnd (s : Sketch α) (parent : String) (ts : List Strip) (Q : α → Prop) : Prop :=
  s.Puts parent fun a cs => Q a ∧ (Strip.drawn cs).Perm (ts.map some)

/-- Drawn on any canvas in a parent, the piece of drawing appends cells, whose shapes have the given
strips in some order. -/
def Spans (s : Sketch α) (parent : String) (ts : List Strip) : Prop :=
  s.SpansAnd parent ts fun _ => True

lemma SpansAnd.pure {a : α} (h : Q a) : (Pure.pure a : Sketch α).SpansAnd parent [] Q :=
  Puts.pure ⟨h, .nil⟩

lemma SpansAnd.bind {f : α → Sketch β} (hs : s.SpansAnd parent ts Q)
    (hf : ∀ a, Q a → (f a).SpansAnd parent ts' R) : (s >>= f).SpansAnd parent (ts ++ ts') R := by
  refine Puts.bind hs fun a cs h => (hf a h.1).imp fun b cs' h' => ⟨h'.1, ?_⟩
  rw [Strip.drawn_append, List.map_append]
  exact h.2.append h'.2

lemma SpansAnd.perm (hs : s.SpansAnd parent ts Q) (h : ts.Perm ts') : s.SpansAnd parent ts' Q :=
  hs.imp fun _ _ h' => ⟨h'.1, h'.2.trans (h.map some)⟩

lemma spans_pure (a : α) : (Pure.pure a : Sketch α).Spans parent [] :=
  SpansAnd.pure trivial

lemma Spans.bind {f : α → Sketch β} (hs : s.Spans parent ts)
    (hf : ∀ a, (f a).SpansAnd parent ts' R) : (s >>= f).SpansAnd parent (ts ++ ts') R :=
  SpansAnd.bind hs fun a _ => hf a

/-- A piece of drawing with one shape goes first. -/
lemma Spans.cons {t : Strip} {f : α → Sketch β} (hs : s.Spans parent [t])
    (hf : ∀ a, (f a).SpansAnd parent ts R) : (s >>= f).SpansAnd parent (t :: ts) R :=
  hs.bind hf

/-- A piece of drawing without shapes goes first. -/
lemma Spans.skip {f : α → Sketch β} (hs : s.Spans parent [])
    (hf : ∀ a, (f a).SpansAnd parent ts R) : (s >>= f).SpansAnd parent ts R :=
  hs.bind hf

/-- A piece of drawing without shapes goes last. -/
lemma Spans.last {f : α → Sketch β} (hs : s.Spans parent ts)
    (hf : ∀ a, (f a).SpansAnd parent [] R) : (s >>= f).SpansAnd parent ts R := by
  rw [← List.append_nil ts]
  exact hs.bind hf

lemma Spans.returns {f : α → β} (hs : s.Spans parent ts) :
    (s >>= fun a => Pure.pure (f a) : Sketch β).Spans parent ts :=
  hs.last fun _ => spans_pure _

lemma spans_shape (value : String) (style : Style) {x width : Number} (y height : Number)
    {left w : Rat} (hx : x.value? = some left) (hw : width.value? = some w) :
    (shape value style x y width height).Spans parent [⟨value, left, w⟩] := by
  unfold shape Spans SpansAnd
  refine (puts_put _).imp ?_
  rintro id cs rfl
  refine ⟨trivial, .of_eq ?_⟩
  simp [Strip.drawn, Strip.ofCell?, Cell.shape, hx, hw]

lemma spans_connect (value : String) (style : Style) (source target : String) :
    (connect value style source target).Spans parent [] := by
  unfold connect Spans SpansAnd
  refine (puts_put _).imp ?_
  rintro id cs rfl
  exact ⟨trivial, .nil⟩

/-- The strips of a whole drawing. -/
theorem Spans.perm_cells (hs : s.Spans parent ts) :
    (Strip.drawn (s.cells parent)).Perm (ts.map some) := by
  unfold Spans SpansAnd at hs
  obtain ⟨_, -, hcs⟩ := hs.cells
  exact hcs

end Sketch
end UmlDraw
