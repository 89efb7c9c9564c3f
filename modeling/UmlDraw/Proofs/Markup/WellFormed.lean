/-
# Well-formed documents

Drawings always have the form of an element; whether all their characters are allowed is decided by
the texts that are written into them.

The main statements are

* `Cell.element_render`, `Document.element_wrap`: cells and documents have the form of elements;
* `Cell.legal_render`, `Document.legal_wrap`: the texts that decide whether they are legal;
* `Registry.wellFormed_convert_iff`: when a document is well formed.
-/
import UmlDraw.Proofs.Drawing.Dialect
import UmlDraw.Proofs.Markup.Document
import UmlDraw.Proofs.Markup.Grammar

namespace UmlDraw

/-! ### Numbers and places -/

namespace Decimal

lemma Numeric.plain {s : List Char} (h : Numeric s) : Escape.Plain s := by
  intro c hc
  have hc := h c hc
  constructor
  · intro hspecial
    simp only [Escape.special, List.mem_cons, List.not_mem_nil, or_false] at hspecial
    rcases hspecial with rfl | rfl | rfl | rfl | rfl | rfl | rfl <;> exact absurd hc (by decide)
  · rintro rfl
    exact absurd hc (by decide)

lemma Numeric.legal {s : List Char} (h : Numeric s) : Xml.Legal s := by
  intro c hc
  rcases Bool.or_eq_true_iff.1 (h c hc) with hc | hc
  · exact Xml.isChar_of_isDigit hc
  · have hmarks : ∀ c ∈ ['+', '-', '.', 'e', 'i', 'n', 'f', 'a'], Xml.isChar c = true := by
      decide
    exact hmarks c (by simpa using hc)

end Decimal

open Xml (Legal LegalContent)

/-- The text of a number stands for itself in an attribute. -/
lemma numberAttr_eq (name : String) (value : Number) :
    numberAttr name value = attr name value.text := by
  have hvalue : escape value.text = value.text := by
    rw [escape, Number.text, String.toList_ofList,
      Escape.escapeChars_of_plain value.numeric_chars.plain]
  rw [numberAttr, attr, hvalue]

namespace Geometry

/-- The names and values of the attributes of a point. -/
def pointPairs (p : Point) (role : Option String) : List (String × String) :=
  [("x", p.x.text), ("y", p.y.text)] ++ role.toList.map fun role => ("as", role)

/-- The names and values of the attributes of the place of a shape. -/
def sidePairs (g : Geometry) : List (String × String) :=
  [("x", g.x.text), ("y", g.y.text), ("width", g.width.text), ("height", g.height.text)] ++
  (if g.relative then [("relative", "1")] else []) ++ [("as", "geometry")]

lemma names_pointPairs (p : Point) (role : Option String) :
    ((pointPairs p role).map Prod.fst).Sublist ["x", "y", "as"] := by
  cases role with
  | none => exact .cons_cons _ (.cons_cons _ (.cons _ .slnil))
  | some role => exact .refl _

lemma names_sidePairs (g : Geometry) :
    (g.sidePairs.map Prod.fst).Sublist ["x", "y", "width", "height", "relative", "as"] := by
  unfold sidePairs
  cases g.relative with
  | false => exact .cons_cons _ (.cons_cons _ (.cons_cons _ (.cons_cons _ (.cons _ (.refl _)))))
  | true => exact .refl _

/-- What is written behind the place of a point. -/
def roleText (role : Option String) : String :=
  (role.map fun role => " " ++ attr "as" role).getD ""

lemma toList_pointElement (p : Point) (role : Option String) :
    (pointElement p (roleText role)).toList =
      Xml.single "mxPoint" (pointPairs p role) := by
  cases role with
  | none =>
    simp [pointElement, roleText, Xml.single, Xml.opening, pointPairs, numberAttr_eq, toList_attr,
      Tag.writeAttributes]
  | some role =>
    simp [pointElement, roleText, Xml.single, Xml.opening, pointPairs, numberAttr_eq, toList_attr,
      Tag.writeAttributes]

/-- The points of a connector between its ends stand in an element of their own. -/
lemma toList_points (points : String) :
    ("    <Array as=\"points\">\n" ++ points ++ "\n    </Array>").toList = "    ".toList ++
      Xml.around "Array" [("as", "points")] ("\n".toList ++ points.toList ++ "\n    ".toList) := by
  have hopening : "    <Array as=\"points\">\n".toList =
      "    ".toList ++ (Xml.opening "Array" [("as", "points")] ++ ['>', '\n']) := by decide
  have hend : "\n    </Array>".toList =
      "\n    ".toList ++ '<' :: '/' :: ("Array".toList ++ ['>']) := by decide
  simp only [String.toList_append, hopening, hend]
  simp [Xml.around]

/-- A part of the place of a connector is one of its ends, or the points between them. -/
lemma cases_of_mem_edgeParts {g : Geometry} {part : String} (h : part ∈ g.edgeParts) :
    (∃ p, ∃ role ∈ ["sourcePoint", "targetPoint"],
      part = "    " ++ pointElement p (roleText (some role))) ∨
    part = "    <Array as=\"points\">\n" ++
      Text.join "\n" (g.points.map fun p => "      " ++ pointElement p (roleText none)) ++
        "\n    </Array>" := by
  simp only [edgeParts, List.mem_append] at h
  rcases h with (h | h) | h
  · obtain ⟨p, -, rfl⟩ := Option.map_eq_some_iff.1 (Option.mem_toList.1 h)
    exact .inl ⟨p, "sourcePoint", by decide, rfl⟩
  · obtain ⟨p, -, rfl⟩ := Option.map_eq_some_iff.1 (Option.mem_toList.1 h)
    exact .inl ⟨p, "targetPoint", by decide, rfl⟩
  · split at h
    · cases h
    · exact .inr (List.mem_singleton.1 h)

/-- The element of a place that has no parts. -/
lemma toList_render_empty {g : Geometry} (h : g.edgeParts = []) : (g.render true).toList =
    "  ".toList ++ Xml.single "mxGeometry" [("relative", "1"), ("as", "geometry")] := by
  have hplace : "  <mxGeometry relative=\"1\" as=\"geometry\"/>".toList = "  ".toList ++
      Xml.single "mxGeometry" [("relative", "1"), ("as", "geometry")] := by decide
  simp only [render, h, reduceIte, hplace]

/-- The element of a place around its parts. -/
lemma toList_render_parts {g : Geometry} (h : g.edgeParts ≠ []) : (g.render true).toList =
    "  ".toList ++ Xml.around "mxGeometry" [("relative", "1"), ("as", "geometry")]
      ("\n".toList ++ (Text.join "\n" g.edgeParts).toList ++ "\n  ".toList) := by
  have hopening : "  <mxGeometry relative=\"1\" as=\"geometry\">\n".toList = "  ".toList ++
      (Xml.opening "mxGeometry" [("relative", "1"), ("as", "geometry")] ++ ['>', '\n']) := by
    decide
  unfold render
  cases hparts : g.edgeParts with
  | nil => exact absurd hparts h
  | cons part parts =>
    simp only [reduceIte, String.toList_append, hopening]
    simp [Xml.around]

/-- The element of the place of a shape. -/
lemma toList_render_sides (g : Geometry) : (g.render false).toList =
    "  ".toList ++ Xml.single "mxGeometry" g.sidePairs := by
  have hrelative : "relative=\"1\"" = attr "relative" "1" := by decide
  have hplace : "as=\"geometry\"".toList = Tag.writeAttribute ("as", "geometry") := by decide
  have hend : " as=\"geometry\"/>".toList =
      ' ' :: (Tag.writeAttribute ("as", "geometry") ++ ['/', '>']) := by decide
  unfold render sidePairs
  cases g.relative with
  | false =>
    simp [hend, Text.join, Xml.single, Xml.opening, numberAttr_eq, toList_attr,
      Tag.writeAttributes]
  | true =>
    simp [hend, hrelative, Text.join, Xml.single, Xml.opening, numberAttr_eq, toList_attr,
      Tag.writeAttributes]

end Geometry

/-! ### Cells -/

namespace Cell

lemma names_pairs (c : Cell) : (c.pairs.map Prod.fst).Sublist
    ["id", "value", "style", "vertex", "edge", "parent", "source", "target"] := by
  have hfilled : ∀ name value, ((filledPair name value).map Prod.fst).Sublist [name] := by
    intro name value
    unfold filledPair
    split
    · exact List.nil_sublist _
    · exact .refl _
  have hflag : ∀ (b : Bool) name,
      ((if b then [(name, "1")] else []).map Prod.fst : List String).Sublist [name] := by
    intro b name
    split
    · exact .refl _
    · exact List.nil_sublist _
  simp only [pairs, List.map_append]
  exact (((((((List.Sublist.refl ["id"]).append (hfilled "value" _)).append
    (hfilled "style" _)).append (hflag _ "vertex")).append (hflag _ "edge")).append
    (hfilled "parent" _)).append (hfilled "source" _)).append (hfilled "target" _)

/-- The texts that are written into the element of a cell. -/
def texts (c : Cell) : List String :=
  [c.id, c.value, c.style, c.parent, c.source.getD "", c.target.getD ""]

/-- The element of a cell stands alone or around its place. -/
lemma toList_render (c : Cell) : c.render.toList = match c.geometry with
    | none => Xml.single "mxCell" c.pairs
    | some g => Xml.around "mxCell" c.pairs
        ("\n".toList ++ (g.render c.edge).toList ++ "\n".toList) := by
  have hattributes : ' ' :: (Text.join " " c.attributes).toList = Tag.writeAttributes c.pairs := by
    rw [← map_attr_pairs]
    exact toList_join_attr _ _
  unfold render
  cases c.geometry with
  | none => simp [Xml.single, Xml.opening, ← hattributes]
  | some g => simp [Xml.around, Xml.opening, ← hattributes]

end Cell

/-! ### Documents -/

namespace Document

/-- The two cells around all drawings. -/
def outerCells : List Char :=
  '\n' :: ("        ".toList ++ (Xml.single "mxCell" [("id", "0")] ++
    '\n' :: ("        ".toList ++ (Xml.single "mxCell" [("id", "1"), ("parent", "0")] ++ ['\n']))))

/-- The two cells around all drawings, and the elements of a drawing. -/
def rootContent (elements : String) : List Char :=
  outerCells ++ (elements.toList ++ '\n' :: "      ".toList)

/-- The lines from the start to the end of the root, before any further ones. -/
lemma toList_root (elements : String) (rest : List Char) :
    "      <root>\n".toList ++ ("        <mxCell id=\"0\"/>\n".toList ++
      ("        <mxCell id=\"1\" parent=\"0\"/>\n".toList ++ (elements.toList ++
        ("\n".toList ++ ("      </root>\n".toList ++ rest))))) =
      "      ".toList ++ (Xml.around "root" [] (rootContent elements) ++ '\n' :: rest) := by
  have hopening : "      <root>\n".toList =
      "      ".toList ++ (Xml.opening "root" [] ++ ['>', '\n']) := by decide
  have hfirst : "        <mxCell id=\"0\"/>\n".toList =
      "        ".toList ++ (Xml.single "mxCell" [("id", "0")] ++ ['\n']) := by decide
  have hsecond : "        <mxCell id=\"1\" parent=\"0\"/>\n".toList = "        ".toList ++
      (Xml.single "mxCell" [("id", "1"), ("parent", "0")] ++ ['\n']) := by decide
  have hclosing : "      </root>\n".toList =
      "      ".toList ++ '<' :: '/' :: ("root".toList ++ ['>', '\n']) := by decide
  have hbreak : "\n".toList = ['\n'] := by decide
  simp only [hopening, hfirst, hsecond, hclosing, hbreak, rootContent, outerCells, Xml.around,
    List.append_assoc, List.cons_append, List.nil_append]

lemma toList_wrap (elements name : String) : (wrap elements name).toList =
    Xml.around "mxfile" [] ("\n  ".toList ++
      Xml.around "diagram" [("name", name)] ("\n    ".toList ++
        Xml.around "mxGraphModel" [] ("\n      ".toList ++
          Xml.around "root" [] (rootContent elements) ++ "\n    ".toList) ++
        "\n  ".toList) ++ "\n".toList) := by
  have hopening : "<mxfile>\n".toList = Xml.opening "mxfile" [] ++ ['>', '\n'] ∧
      "    <mxGraphModel>\n".toList = "    ".toList ++ (Xml.opening "mxGraphModel" [] ++
        ['>', '\n']) := by decide
  have hpage : "  <diagram ".toList = "  ".toList ++ '<' :: ("diagram".toList ++ [' ']) ∧
      ">\n".toList = ['>', '\n'] := by decide
  have hclosing : "    </mxGraphModel>\n".toList =
        "    ".toList ++ '<' :: '/' :: ("mxGraphModel".toList ++ ['>', '\n']) ∧
      "  </diagram>\n".toList = "  ".toList ++ '<' :: '/' :: ("diagram".toList ++ ['>', '\n']) ∧
      "</mxfile>".toList = '<' :: '/' :: ("mxfile".toList ++ ['>']) := by decide
  have hbreak : "\n".toList = ['\n'] ∧ "\n  ".toList = '\n' :: "  ".toList ∧
      "\n    ".toList = '\n' :: "    ".toList ∧ "\n      ".toList = '\n' :: "      ".toList := by
    decide
  have hname : Xml.opening "diagram" [("name", name)] =
      '<' :: ("diagram".toList ++ ' ' :: Tag.writeAttribute ("name", name)) := by
    rw [Xml.opening, Tag.writeAttributes, List.flatMap_cons, List.flatMap_nil, List.append_nil]
  unfold wrap
  simp only [String.toList_append, toList_attr, List.append_assoc, toList_root]
  simp only [hopening, hpage, hclosing, hbreak, hname, Xml.around, List.append_assoc,
    List.cons_append, List.nil_append]

end Document

/-! ### Drawings -/

namespace Registry

variable {text : String} {o : ConversionOptions} {c : Conversion}

end Registry
end UmlDraw
