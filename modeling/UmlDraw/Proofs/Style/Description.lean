/-
# The styles of use case and component diagrams

The styles of a drawing take nothing from the text but colors, and the diagram has its colors from
the lines of the text.

The main statements are

* `Description.Diagram.built_sketch`: what a diagram is drawn with;
* `Line.paints_of_read?`: the colors of a line;
* `Reader.Paints.step`: a line keeps what is known of the colors so far;
* `Diagram.paints_read`: the colors of the diagram.
-/
import UmlDraw.Description.Drawing
import UmlDraw.Description.Reader
import UmlDraw.Proofs.Data.Outcome
import UmlDraw.Proofs.Description.Reader
import UmlDraw.Proofs.Layout.Grouping
import UmlDraw.Proofs.Style.Sketch
import UmlDraw.Proofs.Style.Token

namespace UmlDraw
namespace Description

open Sketch Style

variable {S : String → Prop}

/-- The colors of an element are as described. -/
structure Element.Paints (S : String → Prop) (e : Element) : Prop where
  fill : Color.Fits S e.color
  line : Color.Fits S e.lineColor

/-- The colors of a diagram are as described. -/
structure Diagram.Paints (S : String → Prop) (d : Diagram) : Prop where
  elements : Keyed.All (Element.Paints S) d.elements
  containers : ∀ c ∈ Folder.walkAll d.containers, Color.Fits S c.head.color
  notes : ∀ n ∈ d.notes, Color.Fits S n.color
  links : ∀ l ∈ d.links, Color.Fits S l.color

lemma Diagram.paints_any (d : Diagram) : d.Paints fun _ => True where
  elements := fun _ _ _ => ⟨Color.fits_any, Color.fits_any⟩
  containers := fun _ _ => Color.fits_any
  notes := fun _ _ => Color.fits_any
  links := fun _ _ => Color.fits_any

lemma knows_shapeEntries (kind : ElementKind) : Knows S (shapeEntries kind) := by
  cases kind
  all_goals
    unfold shapeEntries
    repeat constructor

lemma isKnown_elementStyle {e : Element} (h : e.Paints S) : (elementStyle e).IsKnown S :=
  (knows_of (by repeat constructor)).update
    (((knows_shapeEntries e.kind).append (h.fill.entry (by decide))).append
      (h.line.entry (by decide)))

lemma isKnown_containerStyle {c : ContainerHead} (h : Color.Fits S c.color) :
    (containerStyle c).IsKnown S := by
  have hkind : Knows S (containerEntries c.kind) :=
    knows_iff.2 fun e he => knows_iff.1 (knows_shapeEntries c.kind) e (List.mem_of_mem_filter he)
  have hframe : Knows S (if c.kind = .frame then frameEntries else []) := by
    split
    · repeat constructor
    · exact .nil
  exact (knows_of (by repeat constructor)).update
    ((hkind.append hframe).append (h.entry (by decide)))

lemma isKnown_titleStyle : titleStyle.IsKnown S :=
  knows_of (by repeat constructor)

namespace Diagram

variable {d : Diagram}

lemma built_drawContainers (places : Keyed Box) (cells : Keyed String)
    {cs : List (Folder ContainerHead)} (h : ∀ c ∈ cs, Color.Fits S c.head.color) :
    Built (IsKnown S) (drawContainers places cells cs) fun _ => True := by
  induction cs generalizing cells with
  | nil => exact built_pure _
  | cons c rest ih =>
    obtain ⟨hc, hrest⟩ := List.forall_mem_cons.1 h
    unfold drawContainers
    split
    · exact (built_boxed (isKnown_containerStyle hc)).then fun id => ih _ hrest
    · exact ih _ hrest

lemma built_drawElements (places : Keyed Box) (cells : Keyed String) {es : List Element}
    (h : ∀ e ∈ es, e.Paints S) :
    Built (IsKnown S) (drawElements places cells es) fun _ => True := by
  induction es generalizing cells with
  | nil => exact built_pure _
  | cons e rest ih =>
    obtain ⟨he, hrest⟩ := List.forall_mem_cons.1 h
    unfold drawElements
    split
    · exact (built_boxed (isKnown_elementStyle he)).then fun id => ih _ hrest
    · exact ih _ hrest

lemma Paints.values (h : d.Paints S) : ∀ e ∈ d.elements.values, e.Paints S := by
  intro e he
  obtain ⟨⟨code, _⟩, hentry, rfl⟩ := List.mem_map.1 he
  exact h.elements code _ (Keyed.get?_eq_some_iff.2 hentry)

/-- What a use case or component diagram is drawn with. -/
theorem built_sketch (h : d.Paints S) (dialect : Dialect) :
    Built (IsKnown S) (d.sketch dialect) fun _ => True := by
  have hbody : ∀ layout : Layout, Built (IsKnown S) (do
      let cells ← drawContainers layout.containers Keyed.empty (Folder.walkAll d.containers)
      let cells ← drawElements layout.shapes cells d.elements.values
      let bottom := Box.lowest 40 layout.shapes + 40
      let cells ← Relation.drawNotes layout.shapes d.links (40, bottom) cells d.notes
      Relation.drawLinks cells d.links : Sketch Unit) fun _ => True := by
    intro layout
    refine (built_drawContainers _ _ h.containers).then fun cells => ?_
    refine (built_drawElements _ _ h.values).then fun cells => ?_
    refine (Relation.built_drawNotes _ _ _ _ h.notes).then fun cells => ?_
    exact Relation.built_drawLinks _ h.links
  unfold sketch
  cases d.shownTitle with
  | none => exact hbody _
  | some t => exact (built_boxed isKnown_titleStyle).then fun _ => hbody _

end Diagram
end Description

/-! ## The colors of a text -/

namespace Description

open Scan
open Color (Fits fits_none)
open Style (Unbroken)

variable {S : String → Prop}

/-! ### Lines -/

/-- The colors of a declaration whose label goes on are as described. -/
def OpenLabel.Paints (S : String → Prop) : OpenLabel → Prop
  | brackets e => e.Paints S
  | quotes _ => True

/-- The colors that a line writes are as described. -/
def Line.Paints (S : String → Prop) : Line → Prop
  | .container head => Fits S head.color
  | .labelStart l _ => l.Paints S
  | .declare e => e.Paints S
  | .note n => n.Paints S
  | .link l => Fits S l.color
  | _ => True

namespace Line

lemma paints_settle {line : ElementKind → Line} (h : ∀ kind, (line kind).Paints S)
    (kind : Except UnknownKeyword ElementKind) : (settle line kind).Paints S := by
  cases kind with
  | ok kind => exact h kind
  | error k => trivial

lemma yields_shortEnd {c : Scan String} (h : c.Yields Unbroken) :
    (shortEnd c).Yields fun r => Fits Unbroken r.2 := by
  unfold shortEnd
  iterate 3 refine Yields.bind fun _ => ?_
  exact (Color.yields_optional h).bindOf fun c hc => Yields.bind fun _ => Yields.pure hc

lemma yields_paints_firstForms : ∀ p ∈ [readTitle, readDirection, readTogether],
    p.Yields (Paints Unbroken) := by
  simp only [List.forall_mem_cons]
  refine ⟨?_, ?_, ?_, List.forall_mem_nil _⟩
  · exact Yields.bind fun _ => Yields.pure trivial
  · exact Yields.bind fun _ => Yields.bind fun _ => Yields.pure trivial
  · unfold readTogether
    iterate 4 refine Yields.bind fun _ => ?_
    exact Yields.pure trivial

lemma yields_paints_labelStarts (dialect : Dialect) : ∀ p ∈ labelStarts dialect,
    p.Yields (Paints Unbroken) := by
  cases dialect with
  | useCases => exact List.forall_mem_nil _
  | components =>
    simp only [labelStarts, List.forall_mem_cons]
    refine ⟨?_, ?_, List.forall_mem_nil _⟩
    · unfold readBracketStart
      iterate 6 refine Yields.bind fun _ => ?_
      refine (Color.yields_optional Token.yields_plainColor).bindOf fun c hc => ?_
      iterate 5 refine Yields.bind fun _ => ?_
      refine Yields.pure (paints_settle (fun kind => ?_) _)
      exact ⟨hc, fits_none⟩
    · unfold readQuoteStart
      iterate 5 refine Yields.bind fun _ => ?_
      refine Yields.pure (paints_settle (fun kind => ?_) _)
      trivial

lemma yields_readShort (left right : Char) (kindOf : Bool → ElementKind) :
    (readShort left right kindOf).Yields (Paints Unbroken) := by
  unfold readShort
  refine Yields.bind fun ⟨s, isBusiness⟩ => ?_
  dsimp only
  iterate 2 refine Yields.bind fun _ => ?_
  exact (yields_shortEnd Token.yields_color).bindOf fun more hmore => Yields.pure ⟨hmore, fits_none⟩

lemma yields_paints_shorts (dialect : Dialect) : ∀ p ∈ shorts dialect, p.Yields (Paints Unbroken) := by
  have hshort := yields_shortEnd Token.yields_plainColor
  cases dialect with
  | useCases =>
    simp only [shorts, List.forall_mem_cons]
    exact ⟨yields_readShort _ _ _, yields_readShort _ _ _, List.forall_mem_nil _⟩
  | components =>
    simp only [shorts, List.forall_mem_cons]
    refine ⟨yields_readShort _ _ _, yields_readShort _ _ _, ?_, ?_, List.forall_mem_nil _⟩
    · unfold readShortComponent
      iterate 2 refine Yields.bind fun _ => ?_
      exact hshort.bindOf fun more hmore => Yields.pure ⟨hmore, fits_none⟩
    · unfold readShortInterface
      iterate 2 refine Yields.bind fun _ => ?_
      exact hshort.bindOf fun more hmore => Yields.pure ⟨hmore, fits_none⟩

lemma yields_paints_lastForms : ∀ p ∈ [readNote, readLink], p.Yields (Paints Unbroken) := by
  simp only [List.forall_mem_cons]
  refine ⟨?_, ?_, List.forall_mem_nil _⟩
  · exact (NoteLine.yields_scan Token.yields_color).bindOf fun n hn => Yields.pure hn
  · exact (Link.yields_scan false).bindOf fun l hl => Yields.pure hl

lemma paints_container? {s : List Char} {l : Line} (h : container? s = some l) :
    l.Paints Unbroken := by
  obtain ⟨⟨kind, text⟩, -, h⟩ := Option.bind_eq_some_iff.1 h
  obtain ⟨⟨name, rest⟩, -, h⟩ := Option.bind_eq_some_iff.1 h
  obtain rfl := Option.some.inj h
  refine paints_settle (fun kind => ?_) kind
  exact (Decoration.fits_take false rest).2

lemma paints_declaration? {dialect : Dialect} {s : List Char} {l : Line}
    (h : declaration? dialect s = some l) : l.Paints Unbroken := by
  obtain ⟨⟨kind, text⟩, -, h⟩ := Option.bind_eq_some_iff.1 h
  obtain ⟨⟨name, rest⟩, -, h⟩ := Option.bind_eq_some_iff.1 h
  obtain rfl := Option.some.inj h
  obtain ⟨hline, hfill⟩ := Decoration.fits_take true rest
  refine paints_settle (fun kind => ?_) kind
  exact ⟨hfill, hline⟩

/-- The colors of a line. -/
theorem paints_of_read? {dialect : Dialect} {s : List Char} {l : Line}
    (h : read? dialect s = some l) : l.Paints Unbroken := by
  have hmiddle : ∀ p ∈ [readBlockEnd, readDisplay] ++ labelStarts dialect,
      p.Yields (Paints Unbroken) := by
    refine List.forall_mem_append.2 ⟨?_, yields_paints_labelStarts dialect⟩
    simp only [List.forall_mem_cons]
    refine ⟨?_, ?_, List.forall_mem_nil _⟩
    · exact Yields.bind fun _ => Yields.bind fun _ => Yields.pure trivial
    · exact Yields.bind fun _ => Yields.bind fun _ => Yields.bind fun _ => Yields.pure trivial
  have hlast := List.forall_mem_append.2 ⟨yields_paints_lastForms, yields_paints_shorts dialect⟩
  rcases Option.or_eq_some_iff.1 h with h | ⟨-, h⟩
  · exact (Yields.anyOf yields_paints_firstForms).of_whole h
  rcases Option.or_eq_some_iff.1 h with h | ⟨-, h⟩
  · exact paints_container? h
  rcases Option.or_eq_some_iff.1 h with h | ⟨-, h⟩
  · exact (Yields.anyOf hmiddle).of_whole h
  rcases Option.or_eq_some_iff.1 h with h | ⟨-, h⟩
  · exact paints_declaration? h
  · exact (Yields.anyOf hlast).of_whole h

end Line

/-! ### Readers -/

/-- The colors of what goes on over several lines are as described. -/
def OpenBody.Paints (S : String → Prop) : OpenBody → Prop
  | note n _ => Fits S n.color
  | label l _ => l.Paints S

/-- The colors so far are as described. -/
structure Reader.Paints (S : String → Prop) (r : Reader) : Prop where
  elements : Keyed.All (Element.Paints S) r.elements
  links : ∀ l ∈ r.links, Fits S l.color
  notes : ∀ n ∈ r.notes, Fits S n.color
  containers : ∀ x ∈ r.nesting.labels, Fits S x.1.color
  body : ∀ b, r.body = some b → b.Paints S

namespace Reader
namespace Paints

variable {r : Reader}

/-- Nothing goes on any more. -/
lemma closed (h : r.Paints S) : ({ r with body := none } : Reader).Paints S :=
  { h with body := fun b hb => absurd hb.symm (Option.some_ne_none b) }

/-- Something goes on from here. -/
lemma opened (h : r.Paints S) {b : OpenBody} (hb : b.Paints S) :
    ({ r with body := some b } : Reader).Paints S :=
  { h with body := fun _ hb' => Option.some.inj hb' ▸ hb }

lemma addNote (h : r.Paints S) {n : Note} (hn : Fits S n.color) :
    ({ r with notes := r.notes ++ [n] } : Reader).Paints S :=
  { h with notes := List.forall_mem_append.2 ⟨h.notes, List.forall_mem_singleton.2 hn⟩ }

lemma withElements (h : r.Paints S) {elements : Keyed Element}
    (helements : Keyed.All (Element.Paints S) elements) :
    ({ r with elements := elements } : Reader).Paints S :=
  { h with elements := helements }

lemma place (h : r.Paints S) (code : String) : (r.place code).Paints S := by
  unfold Reader.place
  dsimp only
  split
  · refine { h with elements := h.elements.modify fun e he => ⟨he.fill, he.line⟩, containers := ?_ }
    simpa using h.containers
  · refine { h with containers := ?_ }
    simpa using h.containers

lemma paints_merge (dialect : Dialect) {e more : Element} (he : e.Paints S) (hmore : more.Paints S) :
    (merge dialect e more).Paints S :=
  ⟨hmore.fill.or he.fill, hmore.line.or he.line⟩

lemma declare (h : r.Paints S) {e : Element} (he : e.Paints S) : (r.declare e).Paints S := by
  unfold Reader.declare
  dsimp only
  split
  · exact (h.withElements (h.elements.modify fun old hold => paints_merge _ hold he)).place e.code
  · exact (h.withElements (h.elements.insert he)).place e.code

lemma mention (h : r.Paints S) (ref : Reference) : (r.mention ref).Paints S := by
  unfold Reader.mention
  split
  · exact h
  · refine (h.withElements (h.elements.insert ?_)).place ref.code
    exact ⟨fits_none, fits_none⟩

lemma settle (r : Reader) (n : Note) : (r.settle n).color = n.color := by
  unfold Reader.settle
  split <;> rfl

lemma rememberNote (h : r.Paints S) (n : Note) : (r.rememberNote n).Paints S := by
  unfold Reader.rememberNote
  split
  · exact { h with }
  · exact h

lemma addLink (h : r.Paints S) {l : Link} (hl : Fits S l.color) : (r.addLink l).Paints S := by
  have hmention := (h.mention (Line.reference r.dialect l.source.code)).mention
    (Line.reference r.dialect l.target.code)
  exact { hmention with
    links := List.forall_mem_append.2 ⟨hmention.links, List.forall_mem_singleton.2 hl⟩ }

/-- A line with a meaning adds its colors. -/
lemma apply (h : r.Paints S) {l : Line} (hl : l.Paints S) : (r.apply l).Paints S := by
  cases l with
  | title | direction | together | faulty => exact { h with }
  | display => exact h
  | container head =>
    refine { h with containers := fun x hx => ?_ }
    rcases Nesting.mem_labels_of_openFolder hx with hx | hx
    · exact hx ▸ hl
    · exact h.containers x hx
  | blockEnd =>
    exact { h with containers := fun x hx => h.containers x (Nesting.mem_labels_close.1 hx) }
  | labelStart l lines => exact h.opened (b := .label l lines) hl
  | declare e => exact h.declare hl
  | note n =>
    cases n with
    | complete n =>
      refine (h.rememberNote n).addNote ?_
      rw [settle]
      exact hl
    | start n =>
      refine (h.rememberNote n).opened ?_
      rw [OpenBody.Paints, settle]
      exact hl
  | link l => exact h.addLink hl

/-- The element that a label becomes has the colors of its declaration. -/
lemma paints_endLabel {count : Nat} {lines : List (List Char)} {s : List Char} {l : OpenLabel}
    (hl : l.Paints Unbroken) {e : Element} (he : endLabel count lines s l = some e) :
    e.Paints Unbroken := by
  cases l with
  | brackets e' =>
    obtain ⟨last, -, he⟩ := Option.bind_eq_some_iff.1 he
    obtain rfl := Option.some.inj he
    exact ⟨hl.fill, hl.line⟩
  | quotes kind =>
    have hend : Line.quotesEnd.Yields fun r => Fits Unbroken r.2.2.2 := by
      unfold Line.quotesEnd
      iterate 3 refine Yields.bind fun _ => ?_
      exact (Line.yields_shortEnd Token.yields_plainColor).bindOf fun ⟨stereotypes, c⟩ hc =>
        Yields.pure hc
    obtain ⟨⟨last, code, stereotypes, color⟩, hlast, he⟩ := Option.bind_eq_some_iff.1 he
    obtain rfl := Option.some.inj he
    exact ⟨hend.of_whole hlast, fits_none⟩

/-- A line keeps what is known of the colors so far. -/
theorem step (h : r.Paints Unbroken) (line : SourceLine) : (r.step line).Paints Unbroken := by
  unfold Reader.step
  split
  · next n lines hbody =>
    have hn : Fits Unbroken n.color := h.body _ hbody
    split
    · exact (h.addNote (n := { n with text := Label.dedent lines }) hn).closed
    · exact h.opened (b := .note n _) hn
  · next l lines hbody =>
    have hl : l.Paints Unbroken := h.body _ hbody
    split
    · next e he => exact h.closed.declare (paints_endLabel hl he)
    · exact h.opened (b := .label l _) hl
  · split
    · exact h
    · split
      · next l hl => exact h.apply (Line.paints_of_read? hl)
      · exact h

end Paints
end Reader

/-- The colors of a use case or component diagram that is read hold no semicolons. -/
theorem Diagram.paints_read {dialect : Dialect} {text : String} {d : Diagram}
    (h : read dialect text = .ok d) : d.Paints Unbroken := by
  obtain ⟨-, rfl⟩ := Fault.check_eq_ok_iff.1 h
  have hstart : ({ dialect := dialect } : Reader).Paints Unbroken :=
    ⟨Keyed.all_empty, List.forall_mem_nil _, List.forall_mem_nil _, List.forall_mem_nil _,
      fun b hb => absurd hb.symm (Option.some_ne_none b)⟩
  have hr := List.foldlRecOn (motive := Reader.Paints Unbroken) (Source.lines text) Reader.step
    hstart fun r hr line _ => hr.step line
  refine ⟨hr.elements, fun p hp => ?_, hr.notes, hr.links⟩
  exact hr.containers p.label (Nesting.mem_labels_iff.2 (List.mem_map_of_mem hp))

end Description
end UmlDraw
