/-
# What drawings are put together from

A piece of drawing draws cells one after the other, and what it draws next depends on nothing but the
ids of cells before.  So the cell around the drawing decides about the parent of a cell alone: in
another one the same cells are drawn, as long as it does not have the id of one of them.

The main statements are

* `Sketch.Built.style_of_mem`: the styles of the cells;
* `Sketch.Built.cells_reparent`: the cells of a drawing in another cell;
* `Relation.built_drawNotes` and `Relation.built_drawLinks`: notes and links.
-/
import UmlDraw.Proofs.Drawing.Cluster
import UmlDraw.Proofs.Style.Vocabulary

namespace UmlDraw

/-- The id is numbered like those of the cells of a drawing. -/
def Document.IsNumbered (id : String) : Prop :=
  ∃ n, id = numberedId "puml" n

/-- The cell, moved from one cell around the drawing to another one; a cell inside a cell of the
drawing stays there. -/
def Cell.reparent (old new : String) (c : Cell) : Cell :=
  { c with parent := if c.parent = old then new else c.parent }

/-- The canvas, in another cell. -/
def Canvas.reparent (new : String) (k : Canvas) : Canvas :=
  ⟨new, k.cells.map (Cell.reparent k.parent new)⟩

namespace Sketch

open Document (IsNumbered)

/-- The piece of drawing is put together from cells with styles as described, each in the cell around
the drawing or in an owner with a numbered id; its result is as described. -/
inductive Built (P : Style → Prop) : {α : Type} → Sketch α → (α → Prop) → Prop
  | pure {α : Type} {Q : α → Prop} {a : α} (h : Q a) : Built P (Pure.pure a) Q
  | bind {α β : Type} {Q : α → Prop} {R : β → Prop} {s : Sketch α} {f : α → Sketch β}
    (hs : Built P s Q) (hf : ∀ a, Q a → Built P (f a) R) : Built P (s >>= f) R
  | imp {α : Type} {Q R : α → Prop} {s : Sketch α} (hs : Built P s Q) (h : ∀ a, Q a → R a) :
    Built P s R
  | put {c : Cell} {style : Style} {o : Option String} (hstyle : P style)
    (hc : c.style = style.render) (howner : ∀ id, o = some id → IsNumbered id) :
    Built P (put fun id parent => { c with id := id, parent := o.getD parent }) IsNumbered

variable {α β : Type} {P : Style → Prop} {s : Sketch α} {Q : α → Prop} {R : β → Prop}

lemma Built.any (h : Built P s Q) : Built P s fun _ => True :=
  h.imp fun _ _ => trivial

lemma built_pure (a : α) : Built P (Pure.pure a : Sketch α) fun _ => True :=
  .pure trivial

/-- What a piece of drawing returns may not matter for what follows. -/
lemma Built.then {f : α → Sketch β} (hs : Built P s Q) (hf : ∀ a, Built P (f a) R) :
    Built P (s >>= f) R :=
  hs.bind fun a _ => hf a

section

variable {value : String} {style : Style} {x y width height : Number}

lemma built_shape (h : P style) : Built P (shape value style x y width height) IsNumbered :=
  .put (c := Cell.shape "" value style.render "" x y width height) (o := none) h rfl nofun

lemma built_boxed {b : Box} (h : P style) : Built P (boxed value style b) IsNumbered :=
  built_shape h

lemma built_part {owner : String} (howner : IsNumbered owner) (h : P style) :
    Built P (part owner value style x y width height) fun _ => True := by
  have hput : Built P (put fun id _ => Cell.shape id value style.render owner x y width height)
      IsNumbered :=
    .put (c := Cell.shape "" value style.render "" x y width height) (o := some owner) h rfl
      fun id hid => Option.some.inj hid ▸ howner
  exact hput.then fun _ => built_pure _

lemma built_connect {source target : String} (h : P style) :
    Built P (connect value style source target) IsNumbered :=
  .put (c := Cell.connector "" value style.render "" source target []) (o := none) h rfl nofun

lemma built_line {start stop : Point} {points : List Point} (h : P style) :
    Built P (line value style start stop points) fun _ => True := by
  have hput : Built P (put fun id parent =>
      Cell.freeConnector id value style.render parent start stop points) IsNumbered :=
    .put (c := Cell.freeConnector "" value style.render "" start stop points) (o := none) h rfl
      nofun
  exact hput.then fun _ => built_pure _

end

/-- What a piece of drawing appends and returns. -/
lemma Built.puts (h : Built P s Q) (parent : String) :
    s.Puts parent fun a cs => Q a ∧ ∀ c ∈ cs, ∃ style, P style ∧ c.style = style.render := by
  induction h with
  | pure h => exact Puts.pure ⟨h, List.forall_mem_nil _⟩
  | bind _ _ ihs ihf =>
    exact ihs.bind fun a cs ⟨ha, hcs⟩ =>
      (ihf a ha).imp fun b cs' ⟨hb, hcs'⟩ => ⟨hb, List.forall_mem_append.2 ⟨hcs, hcs'⟩⟩
  | imp _ h ih => exact ih.imp fun a cs ⟨ha, hcs⟩ => ⟨h a ha, hcs⟩
  | put hstyle hc _ =>
    intro before
    exact ⟨_, rfl, ⟨_, rfl⟩, List.forall_mem_singleton.2 ⟨_, hstyle, hc⟩⟩

/-- Every cell of a drawing has one of the styles that it is put together from. -/
theorem Built.style_of_mem (h : Built P s Q) {parent : String} {c : Cell}
    (hc : c ∈ s.cells parent) : ∃ style, P style ∧ c.style = style.render := by
  obtain ⟨_, -, hcells⟩ := (h.puts parent).cells
  exact hcells c hc

lemma Built.parent_eq (h : Built P s Q) (k : Canvas) : (s.run k).2.parent = k.parent := by
  obtain ⟨cs, hcs, -⟩ := h.puts k.parent k.cells
  have hparent := congrArg Canvas.parent hcs
  exact hparent

/-- On a canvas in another cell a piece of drawing returns the same and leaves the same canvas, in the
other cell. -/
lemma Built.run_reparent (h : Built P s Q) (new : String) :
    ∀ k : Canvas, ¬ IsNumbered k.parent →
      s.run (k.reparent new) = ((s.run k).1, (s.run k).2.reparent new) := by
  induction h with
  | pure h => exact fun k _ => rfl
  | @bind _ _ _ _ s f hs _ ihs ihf =>
    intro k hk
    obtain ⟨-, -, ha, -⟩ := hs.puts k.parent k.cells
    have hrest := ihf _ ha (s.run k).2 (by rwa [hs.parent_eq])
    have hrun : (s >>= f).run (k.reparent new) =
        (f (s.run (k.reparent new)).1).run (s.run (k.reparent new)).2 := rfl
    rw [hrun, ihs k hk]
    exact hrest
  | imp _ _ ih => exact ih
  | @put c style owner _ _ howner =>
    intro k hk
    have hid : (k.reparent new).nextId = k.nextId := by
      simp [Canvas.nextId, Canvas.reparent]
    refine Prod.ext hid ?_
    have hlast : Cell.reparent k.parent new
        { c with id := k.nextId, parent := owner.getD k.parent } =
          { c with id := k.nextId, parent := owner.getD new } := by
      cases owner with
      | none => simp [Cell.reparent]
      | some id =>
        -- the owner of a cell is not the cell around the drawing
        have hne : id ≠ k.parent := fun he => hk (he ▸ howner id rfl)
        simp [Cell.reparent, hne]
    have hcells : (k.reparent new).cells ++
        [{ c with id := (k.reparent new).nextId, parent := owner.getD new }] =
          (k.cells ++ [{ c with id := k.nextId, parent := owner.getD k.parent }]).map
            (Cell.reparent k.parent new) := by
      rw [hid, List.map_append, List.map_singleton, hlast]
      rfl
    exact congrArg (Canvas.mk new) hcells

/-- The same drawing in another cell: the same cells, of which those directly in the cell around the
drawing are moved. -/
theorem Built.cells_reparent (h : Built P s Q) {old : String} (hold : ¬ IsNumbered old)
    (new : String) : s.cells new = (s.cells old).map (Cell.reparent old new) := by
  have hrun := h.run_reparent new { parent := old } hold
  have hparent := h.parent_eq { parent := old }
  have hcells := congrArg (fun r => r.2.cells) hrun
  simp only [Canvas.reparent] at hcells
  rw [hparent] at hcells
  exact hcells

end Sketch

/-! ## The styles of notes and links

The color of a note and the color of a link are all that their styles take from the source. -/


/-- All entries of the style are known. -/
def Style.IsKnown (S : String → Prop) (st : Style) : Prop :=
  Style.Knows S st.entries

namespace LineStyle

open Style (Knows)

lemma knows_entries {S : String → Prop} (l : LineStyle) : Knows S l.entries := by
  cases l
  all_goals
    unfold entries
    repeat constructor

end LineStyle

namespace EndMark

open Style (Knows)

lemma knows_endEntries {S : String → Prop} (m : EndMark) : Knows S m.endEntries := by
  cases m
  all_goals
    unfold endEntries shape?
    repeat constructor

lemma knows_startEntries {S : String → Prop} (m : EndMark) : Knows S m.startEntries := by
  cases m
  all_goals
    unfold startEntries shape?
    repeat constructor

end EndMark

namespace Relation

open Sketch Style

variable {S : String → Prop}

lemma isKnown_noteStyle {color : Option String} (h : Color.Fits S color) :
    (noteStyle color).IsKnown S := by
  have hfill := h.fillColor "#FFF2CC" (.fillColor (by decide))
  refine knows_of ?_
  repeat first | exact hfill | constructor

lemma isKnown_noteConnectorStyle : noteConnectorStyle.IsKnown S :=
  knows_of (by repeat constructor)

lemma isKnown_endLabelStyle : endLabelStyle.IsKnown S :=
  knows_of (by repeat constructor)

lemma isKnown_qualifierStyle : qualifierStyle.IsKnown S :=
  knows_of (by repeat constructor)

lemma isKnown_style (left right : EndMark) (line : LineStyle) {color : Option String}
    (h : Color.Fits S color) : (style left right line color).IsKnown S := by
  have hplain : Knows S plainEntries := by repeat constructor
  exact knows_of ((((hplain.append line.knows_entries).append right.knows_endEntries).append
    left.knows_startEntries).append (h.entry (by decide)))

variable {P : Style → Prop}

lemma built_drawEndLabel {edgeId : String} (hedge : Document.IsNumbered edgeId)
    (text : Option String) (position : Rat) {style : Style} (h : P style) :
    Built P (drawEndLabel edgeId text position style) fun _ => True := by
  unfold drawEndLabel
  split
  · next t _ =>
    have hput : Built P (Sketch.put fun id _ => endLabel id edgeId t (.ratio position) style)
        Document.IsNumbered :=
      .put (c := endLabel "" "" t (.ratio position) style) (o := some edgeId) h rfl
        fun id hid => Option.some.inj hid ▸ hedge
    exact hput.then fun _ => built_pure _
  · exact built_pure _

lemma built_drawLink (cells : Keyed String) {l : Link} (h : Color.Fits S l.color) :
    Built (IsKnown S) (drawLink cells l) fun _ => True := by
  unfold drawLink
  split
  · refine (built_connect (isKnown_style _ _ _ h)).bind fun id hid => ?_
    refine (built_drawEndLabel hid _ _ isKnown_endLabelStyle).then fun _ => ?_
    refine (built_drawEndLabel hid _ _ isKnown_endLabelStyle).then fun _ => ?_
    refine (built_drawEndLabel hid _ _ isKnown_qualifierStyle).then fun _ => ?_
    exact built_drawEndLabel hid _ _ isKnown_qualifierStyle
  · exact built_pure _

/-- What links are drawn with. -/
theorem built_drawLinks (cells : Keyed String) {ls : List Link}
    (h : ∀ l ∈ ls, Color.Fits S l.color) :
    Built (IsKnown S) (drawLinks cells ls) fun _ => True := by
  induction ls with
  | nil => exact built_pure _
  | cons l rest ih =>
    obtain ⟨hl, hrest⟩ := List.forall_mem_cons.1 h
    exact (built_drawLink cells hl).then fun _ => ih hrest

/-- What notes are drawn with. -/
theorem built_drawNotes (places : Keyed Box) (links : List Link) (free : Rat × Rat)
    (cells : Keyed String) {ns : List Note} (h : ∀ n ∈ ns, Color.Fits S n.color) :
    Built (IsKnown S) (drawNotes places links free cells ns) fun _ => True := by
  induction ns generalizing free cells with
  | nil => exact built_pure _
  | cons n rest ih =>
    obtain ⟨hn, hrest⟩ := List.forall_mem_cons.1 h
    unfold drawNotes
    refine (built_boxed (isKnown_noteStyle hn)).then fun id => ?_
    cases n.target.free?
    -- a free note goes on like any other
    all_goals
      dsimp only
      split
      · exact (built_connect isKnown_noteConnectorStyle).then fun _ => ih _ _ hrest
      · exact ih _ _ hrest

end Relation
end UmlDraw
