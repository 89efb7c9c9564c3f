/-
# Drawings told part by part

A piece of drawing only appends cells.  A shape has a *look*, which is its label and its style.
Some cells come with cells that belong to them: an entity with its rows, a note with its connector,
a connector with the labels at its ends.  Such a cell and what belongs to it make a *cluster*.

A note is drawn as a shape, with a connector to what it speaks of if that has a cell.  A link is
drawn as a connector with the labels at its ends, if both its ends have cells.  Free notes enter the
table of cells with their codes and take the place of other cells there.

The main statements are

* `Sketch.Puts.bind`: what two pieces of drawing append one after the other;
* `Sketch.Puts.cells`: the cells of a whole drawing;
* `Relation.puts_drawNotes`: notes, one by one, and the table that they leave;
* `Relation.puts_drawLinks`: the links whose ends have cells, one by one.
-/
import Mathlib.Data.List.Forall2
import Mathlib.Tactic.Lemma
import UmlDraw.Proofs.Data.Keyed
import UmlDraw.Relation.Drawing

namespace UmlDraw

namespace Cell

/-- A cell is a shape in a parent with the given label and style. -/
structure IsShape (c : Cell) (parent : String) (look : String × Style) : Prop where
  vertex : c.vertex = true
  edge : c.edge = false
  parent : c.parent = parent
  value : c.value = look.1
  style : c.style = look.2.render

/-- A cell is a connector between two cells with the given label and style. -/
structure Joins (c : Cell) (parent : String) (look : String × Style) (source target : String) :
    Prop where
  edge : c.edge = true
  vertex : c.vertex = false
  parent : c.parent = parent
  value : c.value = look.1
  style : c.style = look.2.render
  source : c.source = some source
  target : c.target = some target

/-- The cells are shapes in a parent with the given looks, one for each. -/
def Show (parent : String) (looks : List (String × Style)) (cs : List Cell) : Prop :=
  List.Forall₂ (fun look c => c.IsShape parent look) looks cs

end Cell

/-- A cell with the cells that belong to it. -/
structure Cluster where
  core : Cell
  /-- What belongs to the cell. -/
  rest : List Cell

namespace Cluster

/-- The cells of a cluster, in drawing order. -/
def cells (c : Cluster) : List Cell :=
  c.core :: c.rest

/-- The id of a cluster is that of its first cell. -/
def id (c : Cluster) : String :=
  c.core.id

end Cluster

namespace Sketch

variable {α β : Type} {s : Sketch α} {parent : String} {Q Q' : α → List Cell → Prop}
  {R : β → List Cell → Prop}

/-- Drawn on any canvas in a parent, the piece of drawing appends cells; they and the result are as
described. -/
def Puts (s : Sketch α) (parent : String) (Q : α → List Cell → Prop) : Prop :=
  ∀ before : List Cell, ∃ cs, (s.run ⟨parent, before⟩).2 = ⟨parent, before ++ cs⟩ ∧
    Q (s.run ⟨parent, before⟩).1 cs

lemma Puts.pure {a : α} (h : Q a []) : (Pure.pure a : Sketch α).Puts parent Q := by
  intro before
  refine ⟨[], ?_, h⟩
  rw [List.append_nil]
  rfl

lemma Puts.bind {f : α → Sketch β} (hs : s.Puts parent Q)
    (hf : ∀ a cs, Q a cs → (f a).Puts parent fun b cs' => R b (cs ++ cs')) :
    (s >>= f).Puts parent R := by
  intro before
  obtain ⟨cs, hcs, hQ⟩ := hs before
  obtain ⟨cs', hcs', hR⟩ := hf _ cs hQ (before ++ cs)
  rw [← hcs] at hcs' hR
  refine ⟨cs ++ cs', ?_, hR⟩
  rw [← List.append_assoc, ← hcs']
  rfl

lemma Puts.imp (hs : s.Puts parent Q) (h : ∀ a cs, Q a cs → Q' a cs) : s.Puts parent Q' := by
  intro before
  obtain ⟨cs, hcs, hQ⟩ := hs before
  exact ⟨cs, hcs, h _ _ hQ⟩

/-- A piece of drawing goes before a result. -/
lemma Puts.returns {f : α → β} (hs : s.Puts parent fun a cs => R (f a) cs) :
    (s >>= fun a => Pure.pure (f a) : Sketch β).Puts parent R := by
  refine hs.bind fun a cs h => Puts.pure ?_
  rwa [List.append_nil]

/-- The cells of a whole drawing. -/
theorem Puts.cells (hs : s.Puts parent Q) : ∃ a, Q a (s.cells parent) := by
  obtain ⟨cs, hcs, hQ⟩ := hs []
  have hcells : s.cells parent = cs := congrArg Canvas.cells hcs
  exact ⟨_, hcells ▸ hQ⟩

lemma puts_put (make : String → String → Cell) :
    (put make).Puts parent fun id cs => cs = [make id parent] :=
  fun before => ⟨[make (Canvas.nextId ⟨parent, before⟩) parent], rfl, rfl⟩

lemma puts_shape (value : String) (style : Style) (x y width height : Number) :
    (shape value style x y width height).Puts parent fun id cs =>
      ∃ c : Cell, cs = [c] ∧ c.id = id ∧ c.IsShape parent (value, style) := by
  unfold shape
  refine (puts_put _).imp ?_
  rintro id cs rfl
  exact ⟨_, rfl, rfl, rfl, rfl, rfl, rfl, rfl⟩

lemma puts_boxed (value : String) (style : Style) (b : Box) :
    (boxed value style b).Puts parent fun id cs =>
      ∃ c : Cell, cs = [c] ∧ c.id = id ∧ c.IsShape parent (value, style) :=
  puts_shape _ _ _ _ _ _

lemma puts_part (owner value : String) (style : Style) (x y width height : Number) :
    (part owner value style x y width height).Puts parent fun _ cs =>
      ∃ c : Cell, cs = [c] ∧ c.IsShape owner (value, style) := by
  unfold part
  refine ((puts_put _).imp ?_).returns
  rintro id cs rfl
  exact ⟨_, rfl, rfl, rfl, rfl, rfl, rfl⟩

lemma puts_connect (value : String) (style : Style) (source target : String) :
    (connect value style source target).Puts parent fun id cs =>
      ∃ c : Cell, cs = [c] ∧ c.id = id ∧ c.Joins parent (value, style) source target := by
  unfold connect
  refine (puts_put _).imp ?_
  rintro id cs rfl
  exact ⟨_, rfl, rfl, rfl, rfl, rfl, rfl, rfl, rfl, rfl⟩

end Sketch

/-! ### Notes and links -/

open Sketch

/-- A cluster is the shape of a note with at most one connector that starts at it. -/
structure Note.ShownBy (n : Note) (parent : String) (c : Cluster) : Prop where
  core : c.core.IsShape parent (Label.html n.text, Relation.noteStyle n.color)
  rest : ∀ x ∈ c.rest, ∃ target, x.Joins parent ("", Relation.noteConnectorStyle) c.id target
  length : c.rest.length ≤ 1

namespace Link

/-- The labels at the ends of a link that are not empty, in drawing order. -/
def endLooks (l : Link) : List (String × Style) :=
  [(l.source.label, Relation.endLabelStyle), (l.target.label, Relation.endLabelStyle),
    (l.source.qualifier, Relation.qualifierStyle),
    (l.target.qualifier, Relation.qualifierStyle)].flatMap fun (text, style) =>
      (text.filter fun t => !t.isEmpty).toList.map fun t => (Label.html t, style)

/-- A cluster is the connector of a link between the cells of its codes, with the labels at its
ends. -/
structure ShownBy (l : Link) (cellOf : String → Option String) (parent : String) (c : Cluster) :
    Prop where
  joins : ∃ source target, cellOf l.source.code = some source ∧
    cellOf l.target.code = some target ∧
    c.core.Joins parent (Label.html (l.label.getD ""),
      Relation.style l.source.mark l.target.mark l.line l.color) source target
  labels : Cell.Show c.id l.endLooks c.rest

/-- Both ends of a link have cells. -/
def isBetween (cells : Keyed String) (l : Link) : Bool :=
  cells.contains l.source.code && cells.contains l.target.code

end Link

namespace Relation

variable {parent : String}

/-- The codes of free notes with the ids of their shapes. -/
def noteIds (ns : List Note) (clusters : List Cluster) : List (String × String) :=
  (ns.zip clusters).flatMap fun (n, c) => n.target.free?.toList.map fun code => (code, c.id)

/-- The codes of free notes, in order. -/
def freeCodes (ns : List Note) : List String :=
  ns.flatMap fun n => n.target.free?.toList

lemma mem_freeCodes {ns : List Note} {code : String} :
    code ∈ freeCodes ns ↔ ∃ n ∈ ns, n.target.free? = some code := by
  simp [freeCodes]

lemma map_fst_noteIds {ns : List Note} {clusters : List Cluster}
    (h : ns.length = clusters.length) : (noteIds ns clusters).map Prod.fst = freeCodes ns := by
  induction ns generalizing clusters with
  | nil => rfl
  | cons n rest ih =>
    obtain _ | ⟨c, clusters⟩ := clusters
    · cases h
    · rw [freeCodes, List.flatMap_cons, ← freeCodes, ← ih (Nat.succ.inj h)]
      simp [noteIds, Function.comp_def]

lemma puts_drawEndLabel (edgeId : String) (text : Option String) (position : Rat) (style : Style) :
    (drawEndLabel edgeId text position style).Puts parent fun _ cs =>
      Cell.Show edgeId ((text.filter fun t => !t.isEmpty).toList.map fun t => (Label.html t, style))
        cs := by
  unfold drawEndLabel
  cases text.filter fun t => !t.isEmpty with
  | none => exact Puts.pure .nil
  | some t =>
    refine ((puts_put _).imp ?_).returns
    rintro id cs rfl
    exact .cons ⟨rfl, rfl, rfl, rfl, rfl⟩ .nil

lemma puts_drawLink {cells : Keyed String} {l : Link} {source target : String}
    (hsource : cells.get? l.source.code = some source)
    (htarget : cells.get? l.target.code = some target) :
    (drawLink cells l).Puts parent fun _ cs =>
      ∃ c : Cluster, cs = c.cells ∧ l.ShownBy cells.get? parent c := by
  simp only [drawLink, hsource, htarget]
  refine (puts_connect _ _ _ _).bind ?_
  rintro _ _ ⟨core, rfl, rfl, hcore⟩
  refine (puts_drawEndLabel _ _ _ _).bind fun _ cs₁ h₁ => ?_
  refine (puts_drawEndLabel _ _ _ _).bind fun _ cs₂ h₂ => ?_
  refine (puts_drawEndLabel _ _ _ _).bind fun _ cs₃ h₃ => ?_
  refine (puts_drawEndLabel _ _ _ _).imp fun _ cs₄ h₄ => ?_
  refine ⟨⟨core, cs₁ ++ (cs₂ ++ (cs₃ ++ cs₄))⟩, rfl, ⟨source, target, hsource, htarget, hcore⟩, ?_⟩
  have hlabels := List.rel_append h₁ (List.rel_append h₂ (List.rel_append h₃ h₄))
  simpa only [Link.endLooks, Cell.Show, Cluster.id, List.flatMap_cons, List.flatMap_nil,
    List.append_nil] using hlabels

/-- The links whose ends have cells are drawn, one by one. -/
lemma puts_drawLinks (cells : Keyed String) (ls : List Link) :
    (drawLinks cells ls).Puts parent fun _ cs =>
      ∃ clusters : List Cluster, cs = clusters.flatMap Cluster.cells ∧
        List.Forall₂ (fun l c => l.ShownBy cells.get? parent c)
          (ls.filter (Link.isBetween cells)) clusters := by
  induction ls with
  | nil => exact Puts.pure ⟨[], rfl, .nil⟩
  | cons l rest ih =>
    unfold drawLinks
    by_cases hbetween : l.isBetween cells = true
    · obtain ⟨hsource, htarget⟩ := Bool.and_eq_true_iff.1 hbetween
      obtain ⟨source, hsource⟩ := Option.isSome_iff_exists.1 hsource
      obtain ⟨target, htarget⟩ := Option.isSome_iff_exists.1 htarget
      refine (puts_drawLink hsource htarget).bind ?_
      rintro _ _ ⟨c, rfl, hc⟩
      refine ih.imp ?_
      rintro _ _ ⟨clusters, rfl, hclusters⟩
      rw [List.filter_cons_of_pos hbetween]
      exact ⟨c :: clusters, rfl, .cons hc hclusters⟩
    · have hnone : drawLink cells l = pure () := by
        unfold drawLink
        split
        · next hsource htarget =>
          exact absurd (by simp [Link.isBetween, Keyed.contains, hsource, htarget]) hbetween
        · rfl
      rw [hnone, List.filter_cons_of_neg hbetween]
      exact ih

/-- Notes are drawn one by one, and enter the table with their codes. -/
lemma puts_drawNotes (places : Keyed Box) (links : List Link) (free : Rat × Rat)
    (cells : Keyed String) (ns : List Note) :
    (drawNotes places links free cells ns).Puts parent fun cells' cs =>
      ∃ clusters : List Cluster, cs = clusters.flatMap Cluster.cells ∧
        List.Forall₂ (fun n c => n.ShownBy parent c) ns clusters ∧
        cells' = cells.enter (noteIds ns clusters) := by
  induction ns generalizing free cells with
  | nil => exact Puts.pure ⟨[], rfl, .nil, rfl⟩
  | cons n rest ih =>
    unfold drawNotes
    refine (puts_boxed _ _ _).bind ?_
    rintro _ _ ⟨core, rfl, rfl, hcore⟩
    -- the note with what belongs to it goes before the notes behind it
    have hrest : ∀ free cells' own, cells' =
        cells.enter (n.target.free?.toList.map fun code => (code, core.id)) →
        n.ShownBy parent ⟨core, own⟩ →
        (drawNotes places links free cells' rest).Puts parent fun cells'' cs =>
          ∃ clusters : List Cluster, [core] ++ (own ++ cs) = clusters.flatMap Cluster.cells ∧
            List.Forall₂ (fun n c => n.ShownBy parent c) (n :: rest) clusters ∧
            cells'' = cells.enter (noteIds (n :: rest) clusters) := by
      rintro free _ own rfl hn
      refine (ih free _).imp ?_
      rintro cells'' cs ⟨clusters, rfl, hclusters, rfl⟩
      refine ⟨⟨core, own⟩ :: clusters, rfl, .cons hn hclusters, ?_⟩
      rw [← Keyed.enter_append]
      rfl
    have halone : n.ShownBy parent ⟨core, []⟩ :=
      ⟨hcore, fun _ hx => absurd hx List.not_mem_nil, Nat.zero_le _⟩
    have htied : ∀ target x, Cell.Joins x parent ("", noteConnectorStyle) core.id target →
        n.ShownBy parent ⟨core, [x]⟩ := by
      intro target x hx
      refine ⟨hcore, fun y hy => ?_, Nat.le_refl _⟩
      rw [List.mem_singleton.1 hy]
      exact ⟨target, hx⟩
    cases hfree : n.target.free?
    -- a free note goes on like any other, with its code in the table
    all_goals
      dsimp only
      split
      · refine (puts_connect _ _ _ _).bind ?_
        rintro _ _ ⟨x, rfl, -, hx⟩
        exact hrest _ _ [x] (by rw [hfree]; rfl) (htied _ x hx)
      · exact hrest _ _ [] (by rw [hfree]; rfl) halone

end Relation
end UmlDraw
