/-
# The frame of a drawing

What a conversion that succeeds has gone through: the dialect was recognised, its cells were drawn
in the group, and their elements were written behind the opening tag of the group.

The main statements are

* `Registry.convert_eq_ok`: the stages of a conversion that succeeds;
* `Registry.exists_dialect_of_detect?`: what the standard registry finds is one of the dialects;
* `Registry.toList_xml_of_convert`: the characters of a drawing, up to the id of its group;
* `Dialect.draw_reparent`: the cells of a text in another cell, for each dialect;
* `Registry.convert_ungrouped`: the drawing without a group that belongs to one with a group.
-/
import Mathlib.Tactic.Lemma
import UmlDraw.Conversion.Basic
import UmlDraw.Proofs.Data.Outcome
import UmlDraw.Proofs.Drawing.Dialect
import UmlDraw.Proofs.Sequence.Moved
import UmlDraw.Proofs.Style.Activity
import UmlDraw.Proofs.Style.Class
import UmlDraw.Proofs.Style.Description
import UmlDraw.Proofs.Style.State
import UmlDraw.Proofs.Style.Timing

namespace UmlDraw

open Fault (bind_eq_ok_iff mapError_eq_ok_iff)

namespace ConversionOptions

lemma group_ne_empty (o : ConversionOptions) : o.group ≠ "" := by
  unfold group
  cases h : o.givenGroupId? with
  | none => simp [defaultGroupId]
  | some id =>
    have hid := (Option.filter_eq_some_iff.1 h).2
    simpa using hid

/-- A group has the id that is asked for, if one is. -/
lemma group_of_groupId {o : ConversionOptions} {g : String} (h : o.groupId = some g)
    (hg : g ≠ "") : o.group = g := by
  have hgiven : o.givenGroupId? = some g := by
    rw [givenGroupId?, h, Option.filter_some, if_pos (by simpa using hg)]
  rw [group, hgiven, Option.getD_some]

lemma parent_of_inGroup {o : ConversionOptions} (h : o.inGroup = true) : o.parent = o.group := by
  simp [parent, h]

end ConversionOptions

lemma grouped_eq_ok {o : ConversionOptions} {source body : String} {cells : List Cell}
    (hg : o.inGroup = true) (h : grouped o source cells = .ok body) :
    ∃ width height,
      Document.group o.group source (Cell.renderAll cells) width height = .ok body := by
  unfold grouped at h
  obtain ⟨elements, helements, h⟩ := bind_eq_ok_iff.1 h
  obtain ⟨-, rfl⟩ := Fault.check_eq_ok_iff.1 (mapError_eq_ok_iff.1 helements)
  rw [if_pos hg] at h
  obtain ⟨width, -, h⟩ := bind_eq_ok_iff.1 h
  obtain ⟨height, -, h⟩ := bind_eq_ok_iff.1 h
  exact ⟨width, height, mapError_eq_ok_iff.1 h⟩

namespace Registry

lemma convert_eq_ok {r : Registry} {source : String} {o : ConversionOptions} {c : Conversion}
    (h : r.convert source o = .ok c) :
    ∃ handler cells body,
      r.detect? source = .ok (some (c.dialect, handler)) ∧
      handler.draw source o.parent = .ok cells ∧
      grouped o source cells = .ok body ∧
      c.xml = if o.inDocument then Document.wrap body o.name else body := by
  unfold convert at h
  obtain ⟨found, hfound, h⟩ := bind_eq_ok_iff.1 h
  cases found with
  | none => exact absurd h (by simp)
  | some found =>
    obtain ⟨key, handler⟩ := found
    obtain ⟨cells, hcells, h⟩ := bind_eq_ok_iff.1 h
    obtain ⟨body, hbody, h⟩ := bind_eq_ok_iff.1 h
    obtain rfl := Except.ok.inj h
    exact ⟨handler, cells, body, mapError_eq_ok_iff.1 hfound, mapError_eq_ok_iff.1 hcells, hbody,
      rfl⟩

lemma mem_entries_of_detect? {r : Registry} {text : String} {found : String × Handler}
    (h : r.detect? text = .ok (some found)) : found ∈ r.entries := by
  unfold detect? at h
  obtain ⟨marked, hmarked, h⟩ := bind_eq_ok_iff.1 h
  cases marked with
  | none => exact List.mem_of_find?_eq_some (Except.ok.inj h)
  | some entry =>
    obtain rfl := Option.some.inj (Except.ok.inj h)
    exact Fault.mem_of_findM?_eq_ok hmarked

lemma entries_standard :
    standard.entries = Dialect.all.map fun d => (d.key, d.handler) := rfl

/-- What the standard registry finds is a dialect. -/
lemma exists_dialect_of_detect? {text key : String} {handler : Handler}
    (h : standard.detect? text = .ok (some (key, handler))) :
    ∃ d : Dialect, key = d.key ∧ handler = d.handler := by
  have hmem := mem_entries_of_detect? h
  rw [entries_standard] at hmem
  obtain ⟨d, -, hd⟩ := List.mem_map.1 hmem
  obtain ⟨rfl, rfl⟩ := Prod.mk.injEq _ _ _ _ ▸ hd
  exact ⟨d, rfl, rfl⟩

/-- What a conversion with a group has gone through: the cells of the text in a dialect, the size of
the group, and the elements of the group with the cells in it. -/
lemma exists_group_of_convert {source : String} {o : ConversionOptions} {c : Conversion}
    (hg : o.inGroup = true) (h : standard.convert source o = .ok c) :
    ∃ (d : Dialect) (cells : List Cell) (body : String),
      c.dialect = d.key ∧ d.draw source o.group = .ok cells ∧
      Document.group o.group source (Cell.renderAll cells)
        ((Cell.extent cells o.group).1 + groupMargin)
        ((Cell.extent cells o.group).2 + groupMargin) = .ok body ∧
      c.xml = if o.inDocument then Document.wrap body o.name else body := by
  obtain ⟨handler, cells, body, hdetect, hdraw, hbody, hxml⟩ := convert_eq_ok h
  obtain ⟨d, hkey, rfl⟩ := exists_dialect_of_detect? hdetect
  rw [ConversionOptions.parent_of_inGroup hg] at hdraw
  refine ⟨d, cells, body, hkey, hdraw, ?_, hxml⟩
  unfold grouped at hbody
  obtain ⟨elements, helements, hbody⟩ := bind_eq_ok_iff.1 hbody
  obtain ⟨-, rfl⟩ := Fault.check_eq_ok_iff.1 (mapError_eq_ok_iff.1 helements)
  rw [if_pos hg, ConversionOptions.parent_of_inGroup hg] at hbody
  obtain ⟨width, hwidth, hbody⟩ := bind_eq_ok_iff.1 hbody
  obtain ⟨height, hheight, hbody⟩ := bind_eq_ok_iff.1 hbody
  obtain ⟨-, rfl⟩ := Fault.check_eq_ok_iff.1 hwidth
  obtain ⟨-, rfl⟩ := Fault.check_eq_ok_iff.1 hheight
  exact mapError_eq_ok_iff.1 hbody

/-- The empty text belongs to no dialect. -/
lemma source_ne_empty {source : String} {o : ConversionOptions} {c : Conversion}
    (h : standard.convert source o = .ok c) : source ≠ "" := by
  rintro rfl
  obtain ⟨handler, -, -, hdetect, -⟩ := convert_eq_ok h
  have hnone : (standard.detect? "").toOption.any Option.isNone = true := by decide +kernel
  rw [hdetect] at hnone
  exact absurd hnone (by simp [Except.toOption])

/-- A transition with a label that looks like markup and like an id, and a remark that looks like
written forms. -/
def lookalike : String :=
  "[*] --> a : <b id=\"&lt;\">\r\n'&#10;&amp;"

lemma exists_convert_lookalike :
    ∃ c, standard.convert lookalike { name := "\">", groupId := some "&g" } = .ok c :=
  Fault.exists_of_isOk (by decide +kernel)

end Registry

namespace Document

/-- What a document starts with, up to the name of its page. -/
def beforeName : String :=
  "<mxfile>\n" ++ "  <diagram " ++ "name" ++ "=\""

/-- What stands between the name of the page and the elements. -/
def beforeElements : String :=
  "\"" ++ ">\n" ++ "    <mxGraphModel>\n" ++ "      <root>\n" ++ "        <mxCell id=\"0\"/>\n" ++
    "        <mxCell id=\"1\" parent=\"0\"/>\n"

/-- What a document ends with. -/
def afterElements : String :=
  "\n" ++ "      </root>\n" ++ "    </mxGraphModel>\n" ++ "  </diagram>\n" ++ "</mxfile>"

lemma wrap_eq (elements name : String) :
    wrap elements name =
      beforeName ++ escape name ++ beforeElements ++ (elements ++ afterElements) := by
  unfold wrap beforeName beforeElements afterElements attr
  simp only [String.append_assoc]

/-- What stands in front of the elements of a drawing; nothing, if it is no whole document. -/
def head (inDocument : Bool) (name : String) : String :=
  if inDocument then beforeName ++ escape name ++ beforeElements else ""

/-- What the tag of a group starts with, up to the diagram text. -/
def beforeSource : String :=
  "<UserObject label=\"\" " ++ "plantUml" ++ "=\""

/-- What stands between the diagram text and the id of the group. -/
def beforeId : String :=
  "\"" ++ " " ++ "id" ++ "=\""

/-- What stands between the id of the group and the elements of the cells in it. -/
def beforeCells (width height : Number) : String :=
  ">\n" ++ "  <mxCell style=\"group;editable=0;connectable=0;\" vertex=\"1\" parent=\"1\">\n" ++
    "    <mxGeometry x=\"0\" y=\"0\" " ++ numberAttr "width" width ++ " " ++
    numberAttr "height" height ++ " as=\"geometry\"/>\n" ++ "  </mxCell>\n" ++ "</UserObject>\n"

lemma group_eq_ok {id source cells body : String} {width height : Number}
    (h : group id source cells width height = .ok body) :
    body = beforeSource ++ escape source ++ beforeId ++ escape id ++
      ("\"" ++ beforeCells width height ++ cells) := by
  unfold group at h
  split at h
  · exact absurd h (by simp)
  · obtain rfl := Except.ok.inj h
    unfold beforeSource beforeId beforeCells attr
    simp only [String.append_assoc]

end Document

/-- The characters of a drawing in a group, up to the id of the group. -/
lemma Registry.toList_xml_of_convert {r : Registry} {source : String} {o : ConversionOptions}
    {c : Conversion} (hg : o.inGroup = true) (h : r.convert source o = .ok c) :
    ∃ rest, c.xml.toList = (Document.head o.inDocument o.name).toList ++
      (Document.beforeSource.toList ++ (Escape.escapeChars source.toList ++
        (Document.beforeId.toList ++ (Escape.escapeChars o.group.toList ++ '"' :: rest)))) := by
  obtain ⟨handler, cells, body, -, -, hbody, hxml⟩ := convert_eq_ok h
  obtain ⟨width, height, hgroup⟩ := grouped_eq_ok hg hbody
  have hbody := Document.group_eq_ok hgroup
  have hquote : "\"".toList = ['"'] := by simp
  cases hd : o.inDocument with
  | false =>
    refine ⟨(Document.beforeCells width height ++ Cell.renderAll cells).toList, ?_⟩
    rw [hxml, hd, if_neg (by decide), hbody]
    simp only [Document.head, escape, String.toList_append, String.toList_ofList,
      List.append_assoc, hquote, List.singleton_append]
    rfl
  | true =>
    refine ⟨(Document.beforeCells width height ++ Cell.renderAll cells ++
      Document.afterElements).toList, ?_⟩
    rw [hxml, hd, if_pos rfl, Document.wrap_eq, hbody]
    simp only [Document.head, escape, String.toList_append, String.toList_ofList,
      List.append_assoc, hquote, List.cons_append, List.nil_append, reduceIte]

end UmlDraw

/-! ## Drawings in another cell

In which cell a drawing lies decides about the parents of its cells and about nothing else, so a
drawing in a group is the drawing without one, with the cells moved into the group. -/

namespace UmlDraw

open Document (IsNumbered)
open Fault (bind_eq_ok_iff mapError_eq_ok_iff)

variable {p : String}

/-- The usual cell around a drawing has no numbered id. -/
lemma Document.not_isNumbered_one : ¬ IsNumbered "1" := by
  rintro ⟨n, hn⟩
  have hchars := congrArg String.toList hn
  simp [numberedId] at hchars

lemma Timing.Diagram.draw_reparent (d : Diagram) (hp : ¬ IsNumbered p) (q : String) :
    d.draw q = (d.draw p).map (List.map (Cell.reparent p q)) := by
  unfold draw
  cases hmarks : d.marks with
  | error e => rfl
  | ok marks =>
    have hbuilt := Mark.built_drawAll (Diagram.all_marks d.paints_any hmarks)
    exact congrArg Except.ok (hbuilt.cells_reparent hp q)

/-- What a step of a computation makes of equal results is equal up to a change of the last one. -/
lemma Fault.bind_map {ε α β : Type} {x : Except ε α} {f g : α → Except ε β} {m : β → β}
    (h : ∀ a, g a = (f a).map m) : (x >>= g) = (x >>= f).map m := by
  cases x with
  | error e => rfl
  | ok a => exact h a

lemma Fault.mapError_map {ε ε' α : Type} {x y : Except ε α} {e : ε → ε'} {m : α → α}
    (h : y = x.map m) : y.mapError e = (x.mapError e).map m := by
  subst h
  cases x with
  | error e => rfl
  | ok a => rfl

namespace Dialect

/-- A text in another cell: the cells are the same, of which those directly in the cell around the
drawing are moved.  A text that cannot be drawn fails the same way. -/
lemma draw_reparent (d : Dialect) (text : String) (hp : ¬ IsNumbered p) (q : String) :
    d.draw text q = (d.draw text p).map (List.map (Cell.reparent p q)) := by
  cases d with
  | classes =>
    exact Fault.bind_map fun d =>
      congrArg Except.ok ((Class.Diagram.built_sketch d.paints_any).cells_reparent hp q)
  | useCases =>
    exact Fault.bind_map fun d => congrArg Except.ok
      ((Description.Diagram.built_sketch d.paints_any .useCases).cells_reparent hp q)
  | components =>
    exact Fault.bind_map fun d => congrArg Except.ok
      ((Description.Diagram.built_sketch d.paints_any .components).cells_reparent hp q)
  | timing => exact Fault.bind_map fun d => Fault.mapError_map (d.draw_reparent hp q)
  | states =>
    have hbuilt := State.Diagram.built_sketch (State.Diagram.read text).paints_any
    exact congrArg Except.ok (hbuilt.cells_reparent hp q)
  | activity =>
    have hbuilt := Activity.Diagram.built_sketch (Activity.Diagram.read text).paints_any
    exact congrArg Except.ok (hbuilt.cells_reparent hp q)
  | sequence => exact Fault.bind_map fun d => Fault.mapError_map (d.draw_reparent p q)

end Dialect

/-- Whether cells can be written does not depend on where they lie. -/
lemma Cell.writeAll_of_reparent {old new body : String} {cells : List Cell}
    (h : writeAll (cells.map (reparent old new)) = .ok body) :
    body = renderAll (cells.map (reparent old new)) ∧ writeAll cells = .ok (renderAll cells) := by
  obtain ⟨hfault, hbody⟩ := Fault.check_eq_ok_iff.1 h
  rw [List.findSome?_map] at hfault
  exact ⟨hbody.symm, Fault.check_eq_ok_iff.2 ⟨hfault, rfl⟩⟩

namespace Registry

lemma convert_of_stages {r : Registry} {source body : String} {o : ConversionOptions}
    {key : String} {handler : Handler} {cells : List Cell}
    (hdetect : r.detect? source = .ok (some (key, handler)))
    (hdraw : handler.draw source o.parent = .ok cells) (hbody : grouped o source cells = .ok body) :
    r.convert source o = .ok ⟨key, if o.inDocument then Document.wrap body o.name else body⟩ := by
  unfold convert
  rw [hdetect]
  change ((handler.draw source o.parent).mapError ConversionError.diagram >>= _) = _
  rw [hdraw]
  change (grouped o source cells >>= _) = _
  rw [hbody]
  rfl

/-- A conversion with a group: without one the text is converted too, to the same cells outside of the
group. -/
lemma convert_ungrouped {source : String} {o : ConversionOptions} {c : Conversion}
    (hg : o.inGroup = true) (h : standard.convert source o = .ok c) :
    ∃ (d : Dialect) (cells : List Cell),
      d.draw source "1" = .ok cells ∧
      standard.convert source { o with inGroup := false } = .ok ⟨c.dialect,
        if o.inDocument then Document.wrap (Cell.renderAll cells) o.name
        else Cell.renderAll cells⟩ ∧
      ∃ width height body,
        Document.group o.group source (Cell.renderAll (cells.map (Cell.reparent "1" o.group)))
          width height = .ok body ∧
        c.xml = if o.inDocument then Document.wrap body o.name else body := by
  obtain ⟨handler, moved, body, hdetect, hdraw, hbody, hxml⟩ := convert_eq_ok h
  obtain ⟨d, hkey, rfl⟩ := exists_dialect_of_detect? hdetect
  rw [ConversionOptions.parent_of_inGroup hg] at hdraw
  have hmoved := (d.draw_reparent source Document.not_isNumbered_one o.group).symm.trans hdraw
  cases hcells : d.draw source "1" with
  | error e =>
    rw [hcells] at hmoved
    cases hmoved
  | ok cells =>
    rw [hcells] at hmoved
    obtain rfl := Except.ok.inj hmoved
    obtain ⟨width, height, hgroup⟩ := grouped_eq_ok hg hbody
    obtain ⟨elements, helements, -⟩ := bind_eq_ok_iff.1 hbody
    obtain ⟨-, hwrite⟩ := Cell.writeAll_of_reparent (mapError_eq_ok_iff.1 helements)
    refine ⟨d, cells, hcells, ?_, width, height, body, hgroup, hxml⟩
    have hungrouped : grouped { o with inGroup := false } source cells =
        .ok (Cell.renderAll cells) := by
      unfold grouped
      rw [hwrite]
      rfl
    exact convert_of_stages hdetect hcells hungrouped

/-- **A group only takes the cells in.**  In another cell, whose id may be any, the drawing of a text
has the same cells, with the parents that are the old cell replaced by the new one, and fails for the
same reason if it fails; the id of the old cell must not be one of those that drawings give.  So the
cells of a conversion with a group are those of the conversion without one, with the parents that are
the usual cell around a drawing replaced by the group. -/
theorem cells_of_group (text : String) :
    (∀ (d : Dialect) (p q : String), ¬ IsNumbered p →
      d.draw text q = (d.draw text p).map (List.map (Cell.reparent p q))) ∧
    ∀ (o : ConversionOptions) (c : Conversion), o.inGroup = true → standard.convert text o = .ok c →
      ∃ (d : Dialect) (cells : List Cell),
        d.draw text "1" = .ok cells ∧
        standard.convert text { o with inGroup := false } = .ok ⟨c.dialect,
          if o.inDocument then Document.wrap (Cell.renderAll cells) o.name
          else Cell.renderAll cells⟩ ∧
        ∃ width height body,
          Document.group o.group text (Cell.renderAll (cells.map (Cell.reparent "1" o.group)))
            width height = .ok body ∧
          c.xml = if o.inDocument then Document.wrap body o.name else body :=
  ⟨fun d _ q hp => d.draw_reparent text hp q, fun _ _ hg h => convert_ungrouped hg h⟩

/-- A class with a row, drawn in two cells: the row stays in the class. -/
theorem cells_of_group_row :
    (∃ cells, Dialect.classes.draw "class A \x7b\n+x\n\x7d" "g" = .ok cells ∧
      Dialect.classes.draw "class A \x7b\n+x\n\x7d" "h" = .ok (cells.map (Cell.reparent "g" "h")) ∧
      cells.map Cell.parent = ["g", "puml-1"]) ∧
    ∃ c d cells, standard.convert lookalike { name := "\">", groupId := some "&g" } = .ok c ∧
      Dialect.draw d lookalike "1" = .ok cells ∧
      standard.convert lookalike { inGroup := false, name := "\">", groupId := some "&g" } =
        .ok ⟨c.dialect, Document.wrap (Cell.renderAll cells) "\">"⟩ := by
  have hcells := (cells_of_group "class A \x7b\n+x\n\x7d").1 .classes "g" "h"
    (by rintro ⟨n, hn⟩; simpa [Document.numberedId] using congrArg String.toList hn)
  obtain ⟨cells, hg, hparents⟩ := Fault.exists_of_any (by decide +kernel :
    (Dialect.classes.draw "class A \x7b\n+x\n\x7d" "g").toOption.any
      (fun cells => decide (cells.map Cell.parent = ["g", "puml-1"])) = true)
  obtain ⟨c, hc⟩ := exists_convert_lookalike
  obtain ⟨d, moved, hd, hconvert, -⟩ := (cells_of_group lookalike).2 _ c rfl hc
  refine ⟨⟨cells, hg, ?_, of_decide_eq_true hparents⟩, c, d, moved, hc, hd, hconvert⟩
  rw [hcells, hg]
  rfl

end Registry

end UmlDraw
