/-
# The styles of class diagrams

The styles of a drawing take nothing from the text but colors, and the diagram has its colors from
the lines of the text.

The main statements are

* `Class.Diagram.built_sketch`: what a diagram is drawn with;
* `Line.paints_of_read?`: the colors of a line;
* `Reader.Paints.step`: a line keeps what is known of the colors so far;
* `Diagram.paints_read`: the colors of the diagram.
-/
import UmlDraw.Class.Drawing
import UmlDraw.Class.Reader
import UmlDraw.Proofs.Data.Outcome
import UmlDraw.Proofs.Layout.Grouping
import UmlDraw.Proofs.Style.Sketch
import UmlDraw.Proofs.Style.Token

namespace UmlDraw
namespace Class

open Sketch Style

variable {S : String → Prop}

/-- The colors of an entity are as described. -/
structure Entity.Paints (S : String → Prop) (e : Entity) : Prop where
  fill : Color.Fits S e.color
  line : Color.Fits S e.lineColor

/-- The colors of a diagram are as described. -/
structure Diagram.Paints (S : String → Prop) (d : Diagram) : Prop where
  entities : Keyed.All (Entity.Paints S) d.entities
  packages : ∀ p ∈ Folder.walkAll d.packages, Color.Fits S p.head.color
  notes : ∀ n ∈ d.notes, Color.Fits S n.color
  links : ∀ l ∈ d.links, Color.Fits S l.color

lemma Diagram.paints_any (d : Diagram) : d.Paints fun _ => True where
  entities := fun _ _ _ => ⟨Color.fits_any, Color.fits_any⟩
  packages := fun _ _ => Color.fits_any
  notes := fun _ _ => Color.fits_any
  links := fun _ _ => Color.fits_any

lemma isKnown_entityStyle {e : Entity} (h : e.Paints S) (header : Nat) :
    (entityStyle e header).IsKnown S := by
  have hfont : Known S ("fontStyle", .number (.int (headerFont e.kind))) := .computed (by decide) _
  have hheader : Known S ("startSize", .number (.int header)) := .computed (by decide) _
  refine Knows.update (knows_of ?_) ((h.fill.entry (by decide)).append (h.line.entry (by decide)))
  repeat first | exact hfont | exact hheader | constructor

lemma isKnown_rowStyle (font indent : Nat) (bordered : Bool) :
    (rowStyle font indent bordered).IsKnown S := by
  have hstroke : Known S ("strokeColor", .text (if bordered then "inherit" else "none")) := by
    cases bordered
    all_goals repeat constructor
  have hindent : Known S ("spacingLeft", .number (.int (4 + indent))) :=
    .computed (by decide) (4 + indent)
  have hfont : Known S ("fontStyle", .number (.int font)) := .computed (by decide) font
  refine knows_of ?_
  repeat first | exact hstroke | exact hindent | exact hfont | constructor

lemma isKnown_separatorStyle (s : SeparatorStyle) : (separatorStyle s).IsKnown S := by
  have hentries : Knows S (separatorEntries s) := by
    cases s
    all_goals
      unfold separatorEntries
      repeat constructor
  exact (knows_of (by repeat constructor)).update hentries

lemma isKnown_packageStyle {color : Option String} (h : Color.Fits S color) :
    (packageStyle color).IsKnown S := by
  have hfill := h.fillColor "none" (.fillColor (by decide))
  refine knows_of ?_
  repeat first | exact hfill | constructor

lemma isKnown_smallStyle {e : Entity} (h : e.Paints S) : (smallStyle e).IsKnown S := by
  have hsmall : Knows S (smallEntries e.kind) := by
    unfold smallEntries
    split
    all_goals repeat constructor
  exact (knows_of hsmall).update (h.fill.entry (by decide))

lemma isKnown_inheritanceStyle (dashed : Bool) : (inheritanceStyle dashed).IsKnown S := by
  have hentries : Knows S (if dashed then [("dashed", 1)] else []) := by
    cases dashed
    all_goals repeat constructor
  exact (knows_of (by repeat constructor)).update hentries

lemma isKnown_titleStyle : titleStyle.IsKnown S :=
  knows_of (by repeat constructor)

namespace Diagram

variable {d : Diagram}

lemma isKnown_entryRow (entry : MapEntry) : (entryRow entry).style.IsKnown S := by
  cases entry with
  | value | link => exact isKnown_rowStyle 0 0 true

lemma isKnown_lineRow (e : Entity) (line : BodyLine) : (lineRow e line).style.IsKnown S := by
  cases line with
  | member m =>
    unfold lineRow
    dsimp only
    split
    · exact isKnown_rowStyle 0 0 false
    · exact isKnown_rowStyle (memberFont m) 0 false
  | separator label style => exact isKnown_separatorStyle style

/-- The rows of an entity have the styles of rows and separators. -/
lemma isKnown_rows (d : Diagram) (e : Entity) : ∀ r ∈ d.rows e, r.style.IsKnown S := by
  unfold rows
  intro r hr
  split at hr
  · obtain ⟨entry, -, rfl⟩ := List.mem_map.1 hr
    exact isKnown_entryRow entry
  · obtain ⟨⟨text, depth⟩, -, rfl⟩ := List.mem_map.1 hr
    dsimp only
    exact isKnown_rowStyle 0 (depth * 12) false
  · obtain ⟨line, -, rfl⟩ := List.mem_map.1 hr
    exact isKnown_lineRow e line

lemma built_drawFrames (frames : Keyed Box) {ps : List (Folder PackageHead)}
    (h : ∀ p ∈ ps, Color.Fits S p.head.color) :
    Built (IsKnown S) (drawFrames frames ps) fun _ => True := by
  induction ps with
  | nil => exact built_pure _
  | cons p rest ih =>
    obtain ⟨hp, hrest⟩ := List.forall_mem_cons.1 h
    unfold drawFrames
    split
    · exact (built_boxed (isKnown_packageStyle hp)).then fun _ => ih hrest
    · exact ih hrest

lemma built_drawRows {owner : String} (howner : Document.IsNumbered owner) (width : Rat) (y : Nat)
    {rs : List Row} (h : ∀ r ∈ rs, r.style.IsKnown S) :
    Built (IsKnown S) (drawRows owner width y rs) fun _ => True := by
  induction rs generalizing y with
  | nil => exact built_pure _
  | cons r rest ih =>
    obtain ⟨hr, hrest⟩ := List.forall_mem_cons.1 h
    unfold drawRows
    split
    · exact (built_part howner hr).then fun _ => ih _ hrest
    · refine (built_part howner hr).then fun _ => ?_
      exact (built_part howner hr).then fun _ => ih _ hrest

lemma built_drawEntity (d : Diagram) {e : Entity} (h : e.Paints S) (b : Box) :
    Built (IsKnown S) (d.drawEntity e b) fun _ => True := by
  unfold drawEntity
  split
  · exact (built_boxed (isKnown_smallStyle h)).any
  · refine (built_boxed (isKnown_entityStyle h _)).bind fun id hid => ?_
    exact (built_drawRows hid _ _ (d.isKnown_rows e)).then fun _ => built_pure _

lemma built_drawEntities (d : Diagram) (places : Keyed Box) (cells : Keyed String)
    {es : List Entity} (h : ∀ e ∈ es, e.Paints S) :
    Built (IsKnown S) (drawEntities d places cells es) fun _ => True := by
  induction es generalizing cells with
  | nil => exact built_pure _
  | cons e rest ih =>
    obtain ⟨he, hrest⟩ := List.forall_mem_cons.1 h
    unfold drawEntities
    split
    · exact (d.built_drawEntity he _).then fun id => ih _ hrest
    · exact ih _ hrest

lemma built_drawUpward (cells : Keyed String) (id : String) (dashed : Bool) (codes : List String) :
    Built (IsKnown S) (drawUpward cells id dashed codes) fun _ => True := by
  induction codes with
  | nil => exact built_pure _
  | cons code rest ih =>
    unfold drawUpward
    split
    · exact (built_connect (isKnown_inheritanceStyle dashed)).then fun _ => ih
    · exact ih

lemma built_drawInheritance (cells : Keyed String) (es : List Entity) :
    Built (IsKnown S) (drawInheritance cells es) fun _ => True := by
  induction es with
  | nil => exact built_pure _
  | cons e rest ih =>
    unfold drawInheritance
    split
    · refine (built_drawUpward _ _ _ _).then fun _ => ?_
      exact (built_drawUpward _ _ _ _).then fun _ => ih
    · exact ih

lemma Paints.drawn (h : d.Paints S) : ∀ e ∈ d.drawn, e.Paints S := by
  intro e he
  obtain ⟨⟨code, _⟩, hentry, rfl⟩ := List.mem_map.1 he
  exact h.entities code _ (Keyed.get?_eq_some_iff.2 (List.mem_of_mem_filter hentry))

/-- What a class diagram is drawn with. -/
theorem built_sketch (h : d.Paints S) : Built (IsKnown S) d.sketch fun _ => True := by
  have hbody : Built (IsKnown S) (do
      drawFrames (d.layout d.originX d.originY).1.frames (Folder.walkAll d.packages)
      let cells ← drawEntities d (d.layout d.originX d.originY).1.entities Keyed.empty d.drawn
      let cells ← Relation.drawNotes (d.layout d.originX d.originY).1.entities d.links
        (40, (d.layout d.originX d.originY).2) cells d.notes
      drawInheritance cells d.drawn
      Relation.drawLinks cells d.links : Sketch Unit) fun _ => True := by
    refine (built_drawFrames _ h.packages).then fun _ => ?_
    refine (d.built_drawEntities _ _ h.drawn).then fun cells => ?_
    refine (Relation.built_drawNotes _ _ _ _ h.notes).then fun cells => ?_
    refine (built_drawInheritance _ _).then fun _ => ?_
    exact Relation.built_drawLinks _ h.links
  unfold sketch
  cases d.shownTitle with
  | none => exact hbody
  | some t => exact (built_boxed isKnown_titleStyle).then fun _ => hbody

end Diagram
end Class

/-! ## The colors of a text -/

namespace Class

open Scan
open Color (Fits fits_none)
open Style (Unbroken)

variable {S : String → Prop}

/-! ### Lines -/

/-- The colors that a line writes are as described. -/
def Line.Paints (S : String → Prop) : Line → Prop
  | .package head => Fits S head.color
  | .note n => n.Paints S
  | .declare e _ => e.Paints S
  | .link l => Fits S l.color
  | _ => True

namespace Line

instance : shape.Honest := by
  unfold shape
  infer_instance

instance : linkBody.Honest := by
  unfold linkBody
  infer_instance

lemma paints_displayOf (isHide : Bool) (text : String) : (displayOf isHide text).Paints S := by
  unfold displayOf
  dsimp only
  split
  · trivial
  · split
    · trivial
    · trivial

lemma yields_firstForms : ∀ p ∈ firstForms, p.Yields (Paints Unbroken) := by
  simp only [firstForms, List.forall_mem_cons]
  refine ⟨?_, ?_, ?_, ?_, ?_, ?_, ?_, ?_, ?_, List.forall_mem_nil _⟩
  · exact Yields.bind fun _ => Yields.pure trivial
  · unfold readDisplay
    iterate 3 refine Yields.bind fun _ => ?_
    exact Yields.pure (paints_displayOf _ _)
  · unfold readRemove
    iterate 3 refine Yields.bind fun _ => ?_
    exact Yields.pure trivial
  · unfold readTogether
    iterate 4 refine Yields.bind fun _ => ?_
    exact Yields.pure trivial
  · unfold readPackage
    iterate 7 refine Yields.bind fun _ => ?_
    refine (Color.yields_optional Token.yields_plainColor).bindOf fun c hc => ?_
    iterate 3 refine Yields.bind fun _ => ?_
    exact Yields.pure hc
  · unfold readBlockEnd
    iterate 2 refine Yields.bind fun _ => ?_
    exact Yields.pure trivial
  · unfold readDiamond
    iterate 4 refine Yields.bind fun _ => ?_
    exact Yields.pure ⟨fits_none, fits_none⟩
  · unfold readLollipop
    iterate 4 refine Yields.bind fun _ => ?_
    exact Yields.pure ⟨fits_none, fits_none⟩
  · exact (NoteLine.yields_scan Token.yields_plainColor).bindOf fun n hn => Yields.pure hn

lemma paints_declarationOf (kind : EntityKind) (name : Name) (s : List Char) :
    (declarationOf kind name s).Paints Unbroken := by
  unfold declarationOf
  dsimp only
  split
  · exact ⟨fits_none, fits_none⟩
  · obtain ⟨hline, hfill⟩ := Decoration.fits_take true (takeFront (parents "implements" parentsEnd) []
      (takeFront (parents "extends" extendsEnd) [] (takeFront (some <$> generics) none s).2).2).2
    exact ⟨hfill, hline⟩

lemma paints_declaration? {s : List Char} {l : Line} (h : declaration? s = some l) :
    l.Paints Unbroken := by
  obtain ⟨⟨kind, text⟩, -, h⟩ := Option.bind_eq_some_iff.1 h
  obtain ⟨⟨name, t⟩, -, h⟩ := Option.bind_eq_some_iff.1 h
  obtain rfl := Option.some.inj h
  cases kind with
  | ok kind => exact paints_declarationOf kind name t
  | error k => trivial

/-- The colors of a line. -/
theorem paints_of_read? {s : List Char} {l : Line} (h : read? s = some l) : l.Paints Unbroken := by
  have hlast : (Scan.either readLink readMember).Yields (Paints Unbroken) := by
    refine Yields.either ?_ ?_
    · exact (Link.yields_scan true).bindOf fun l hl => Yields.pure hl
    · unfold readMember
      iterate 5 refine Yields.bind fun _ => ?_
      exact Yields.pure trivial
  rcases Option.or_eq_some_iff.1 h with h | ⟨-, h⟩
  · exact (Yields.anyOf yields_firstForms).of_whole h
  · rcases Option.or_eq_some_iff.1 h with h | ⟨-, h⟩
    · exact paints_declaration? h
    · exact hlast.of_whole h

end Line

/-! ### Readers -/

/-- The colors of what goes on over several lines are as described. -/
def OpenBody.Paints (S : String → Prop) : OpenBody → Prop
  | members e | entries e | document e _ _ => e.Paints S
  | note n _ => Fits S n.color

/-- The colors so far are as described. -/
structure Reader.Paints (S : String → Prop) (r : Reader) : Prop where
  entities : Keyed.All (Entity.Paints S) r.entities
  links : ∀ l ∈ r.links, Fits S l.color
  notes : ∀ n ∈ r.notes, Fits S n.color
  packages : ∀ x ∈ r.nesting.labels, Fits S x.1.color
  body : ∀ b, r.body = some b → b.Paints S

namespace Reader
namespace Paints

variable {r : Reader}

lemma create (h : r.Paints S) (code : String) : (r.create code).Paints S := by
  unfold Reader.create
  split
  · exact h
  · exact { h with entities := h.entities.insert ⟨fits_none, fits_none⟩ }

lemma mention (h : r.Paints S) (code : String) : (r.mention code).Paints S := by
  unfold Reader.mention
  split
  · exact h
  · exact h.create code

lemma declare (h : r.Paints S) {e : Entity} (he : e.Paints S) : (r.declare e).Paints S where
  entities := h.entities.insert ⟨he.fill, he.line⟩
  links := h.links
  notes := h.notes
  packages := by
    unfold Reader.declare
    simpa using h.packages
  body := h.body

/-- Nothing goes on any more. -/
lemma closed (h : r.Paints S) : ({ r with body := none } : Reader).Paints S :=
  { h with body := fun b hb => absurd hb.symm (Option.some_ne_none b) }

/-- Something goes on from here. -/
lemma opened (h : r.Paints S) {b : OpenBody} (hb : b.Paints S) :
    ({ r with body := some b } : Reader).Paints S :=
  { h with body := fun _ hb' => Option.some.inj hb' ▸ hb }

lemma addNote (h : r.Paints S) {n : Note} (hn : Fits S n.color) :
    ({ r with notes := r.notes ++ [n] } : Reader).Paints S :=
  { h with notes := List.forall_mem_append.2 ⟨h.notes, List.forall_mem_singleton.2 hn⟩ }

lemma insertLink (h : r.Paints S) {l : Link} (hl : Fits S l.color) :
    ({ r with links := r.links ++ [l] } : Reader).Paints S :=
  { h with links := List.forall_mem_append.2 ⟨h.links, List.forall_mem_singleton.2 hl⟩ }

lemma closeBody (h : r.Paints S) {e : Entity} (he : e.Paints S) : (r.closeBody e).Paints S :=
  h.closed.declare he

lemma settle (r : Reader) (n : Note) : (r.settle n).color = n.color := by
  unfold Reader.settle
  split <;> rfl

lemma mentionNote (h : r.Paints S) (n : Note) : (r.mentionNote n).Paints S := by
  unfold Reader.mentionNote
  split
  · exact h.mention _
  · exact h
  · exact { h with }

lemma addLink (h : r.Paints S) {l : Link} (hl : Fits S l.color) : (r.addLink l).Paints S := by
  have horiented : ∀ l : Link, l.oriented.color = l.color := by
    intro l
    unfold Link.oriented
    split <;> rfl
  have hmention := (h.mention (Label.unquote l.source.code)).mention (Label.unquote l.target.code)
  refine hmention.insertLink ?_
  rw [horiented]
  exact hl

lemma openBody (h : r.Paints S) {e : Entity} (he : e.Paints S) : (r.openBody e).Paints S := by
  refine h.opened ?_
  split
  · exact he
  · exact he
  · exact he

lemma addDeclaration (h : r.Paints S) {e : Entity} (he : e.Paints S) (hasBody : Bool) :
    (r.addDeclaration e hasBody).Paints S := by
  have hmention := List.foldlRecOn (motive := Reader.Paints S) (e.parents ++ e.interfaces)
    Reader.mention h fun r hr code _ => hr.mention code
  unfold Reader.addDeclaration
  dsimp only
  split
  · exact hmention.openBody he
  · exact hmention.declare he

/-- A line with a meaning adds its colors. -/
lemma apply (h : r.Paints S) {l : Line} (hl : l.Paints S) : (r.apply l).Paints S := by
  cases l with
  | title | display | remove | together | faulty => exact { h with }
  | nothing => exact h
  | package head =>
    refine { h with packages := fun x hx => ?_ }
    rcases Nesting.mem_labels_of_openFolder hx with hx | hx
    · exact hx ▸ hl
    · exact h.packages x hx
  | blockEnd => exact { h with packages := fun x hx => h.packages x (Nesting.mem_labels_close.1 hx) }
  | note n =>
    cases n with
    | complete n =>
      refine (h.mentionNote (r.settle n)).addNote ?_
      rw [settle]
      exact hl
    | start n =>
      refine (h.mentionNote (r.settle n)).opened ?_
      rw [OpenBody.Paints, settle]
      exact hl
  | declare e hasBody => exact h.addDeclaration hl hasBody
  | link l => exact h.addLink hl
  | member code m =>
    have hcreate := h.create code
    exact { hcreate with entities := hcreate.entities.modify fun e he => ⟨he.fill, he.line⟩ }

lemma memberLine (h : r.Paints S) {e : Entity} (he : e.Paints S) (s : List Char) :
    (r.memberLine e s).Paints S := by
  unfold Reader.memberLine
  split
  · exact h.closeBody he
  · exact h.opened (b := .members _) ⟨he.fill, he.line⟩

lemma entryLine (h : r.Paints S) {e : Entity} (he : e.Paints S) (s : List Char) :
    (r.entryLine e s).Paints S := by
  unfold Reader.entryLine
  split
  · exact h.closeBody he
  · split
    · exact h
    · next entry _ =>
      have hbody : (OpenBody.entries { e with entries := e.entries ++ [entry] }).Paints S :=
        ⟨he.fill, he.line⟩
      dsimp only
      split
      · exact h.opened hbody
      · next target _ =>
        have hlink : Fits S (rowLink e.code target).color := fits_none
        exact { (h.mention target).opened hbody with
          links := List.forall_mem_append.2 ⟨h.links, List.forall_mem_singleton.2 hlink⟩ }

lemma documentLine (h : r.Paints S) {e : Entity} (he : e.Paints S) (depth : Int)
    (lines : List (List Char)) (s : List Char) : (r.documentLine e depth lines s).Paints S := by
  unfold Reader.documentLine
  dsimp only
  split
  · exact h.closeBody ⟨he.fill, he.line⟩
  · exact h.opened (b := .document e _ _) he

/-- A line keeps what is known of the colors so far. -/
theorem step (h : r.Paints Unbroken) (line : SourceLine) : (r.step line).Paints Unbroken := by
  unfold Reader.step
  split
  · next n lines hbody =>
    have hn : Fits Unbroken n.color := h.body _ hbody
    split
    · exact (h.addNote (n := { n with text := Label.dedent lines }) hn).closed
    · exact h.opened (b := .note n _) hn
  · next e hbody =>
    split
    · exact h
    · exact h.memberLine (h.body _ hbody) _
  · next e hbody =>
    split
    · exact h
    · exact h.entryLine (h.body _ hbody) _
  · next e depth lines hbody =>
    split
    · exact h
    · exact h.documentLine (h.body _ hbody) _ _ _
  · split
    · exact h
    · unfold Reader.readLine
      split
      · next l hl => exact h.apply (Line.paints_of_read? hl)
      · exact h

end Paints
end Reader

/-- The colors of a class diagram that is read hold no semicolons. -/
theorem Diagram.paints_read {text : String} {d : Diagram} (h : read text = .ok d) :
    d.Paints Unbroken := by
  obtain ⟨-, rfl⟩ := Fault.check_eq_ok_iff.1 h
  have hstart : ({} : Reader).Paints Unbroken :=
    ⟨Keyed.all_empty, List.forall_mem_nil _, List.forall_mem_nil _, List.forall_mem_nil _,
      fun b hb => absurd hb.symm (Option.some_ne_none b)⟩
  have hr := List.foldlRecOn (motive := Reader.Paints Unbroken) (Source.lines text) Reader.step
    hstart fun r hr line _ => hr.step line
  refine ⟨hr.entities, fun p hp => ?_, hr.notes, hr.links⟩
  exact hr.packages p.label (Nesting.mem_labels_iff.2 (List.mem_map_of_mem hp))

end Class
end UmlDraw
