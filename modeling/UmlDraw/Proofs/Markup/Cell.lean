/-
# Reading cells back

The element of a cell is one tag that counts, with an attribute for each field that is not empty;
the tags of its place hold numbers only.

The main statements are

* `Number.numeric_chars`: the characters in the text of a number;
* `Cell.shows_render`: the element of a cell is read as one tag;
* `CellElement.ofTag_tag`: that tag says what the fields of the cell are.
-/
import UmlDraw.Drawing.Cell
import UmlDraw.Proofs.Markup.Tag

namespace UmlDraw

open Tag (Unmarked Shows)

/-! ### Numbers -/

namespace Decimal

/-- A character of the text of a number. -/
def isNumeral (c : Char) : Bool :=
  c.isDigit || ['+', '-', '.', 'e', 'i', 'n', 'f', 'a'].contains c

/-- The text is made of the characters of numbers. -/
def Numeric (s : List Char) : Prop :=
  ∀ c ∈ s, isNumeral c = true

instance (s : List Char) : Decidable (Numeric s) :=
  List.decidableBAll _ s

lemma numeric_append {s t : List Char} : Numeric (s ++ t) ↔ Numeric s ∧ Numeric t :=
  List.forall_mem_append

lemma numeric_cons {c : Char} {s : List Char} :
    Numeric (c :: s) ↔ isNumeral c = true ∧ Numeric s :=
  List.forall_mem_cons

lemma Numeric.subset {s t : List Char} (h : Numeric t) (hst : s ⊆ t) : Numeric s :=
  fun c hc => h c (hst hc)

lemma numeric_digits (n : Nat) : Numeric (digits n) := by
  intro c hc
  rw [isNumeral, Nat.isDigit_of_mem_toDigits (by decide) (by decide) hc, Bool.true_or]

lemma numeric_signed (negative : Bool) {s : List Char} (h : Numeric s) :
    Numeric (signed negative s) := by
  unfold signed
  split
  · exact numeric_cons.2 ⟨by decide, h⟩
  · exact h

lemma numeric_special (x : Float) : Numeric (special x) := by
  unfold special
  split
  · decide
  · exact numeric_signed _ (by decide)

lemma numeric_withPoint (places : Nat) {s : List Char} (h : Numeric s) :
    Numeric (withPoint places s) := by
  have hzeros : Numeric (List.replicate (places + 1 - s.length) '0') := by
    intro c hc
    rw [(List.mem_replicate.1 hc).2]
    decide
  have hpadded := numeric_append.2 ⟨hzeros, h⟩
  unfold withPoint
  dsimp only
  split
  · exact hpadded
  · refine numeric_append.2 ⟨hpadded.subset (List.take_subset _ _), ?_⟩
    exact numeric_cons.2 ⟨by decide, hpadded.subset (List.drop_subset _ _)⟩

lemma numeric_dropEnd (p : Char → Bool) {s : List Char} (h : Numeric s) :
    Numeric (dropEnd p s) := by
  refine h.subset fun c hc => ?_
  exact List.mem_reverse.1 ((List.dropWhile_sublist p).subset (List.mem_reverse.1 hc))

lemma numeric_exponentMark (e : Int) : Numeric (exponentMark e) := by
  have hdigits := numeric_digits e.natAbs
  unfold exponentMark
  dsimp only
  refine numeric_cons.2 ⟨by decide, numeric_cons.2 ⟨?_, ?_⟩⟩
  · split
    · decide
    · decide
  · split
    · exact numeric_cons.2 ⟨by decide, hdigits⟩
    · exact hdigits

lemma numeric_sixDigits (x : Float) : Numeric (sixDigits x) := by
  have htrimmed : ∀ places m, Numeric (dropEnd (· == '.') (dropEnd (· == '0')
      (withPoint places (digits m)))) := fun places m =>
    numeric_dropEnd _ (numeric_dropEnd _ (numeric_withPoint places (numeric_digits m)))
  unfold sixDigits
  split
  · exact numeric_special x
  · split
    · exact numeric_signed _ (by decide)
    · refine numeric_signed _ ?_
      dsimp only
      split
      · exact numeric_append.2 ⟨htrimmed _ _, numeric_exponentMark _⟩
      · split
        · exact numeric_digits _
        · exact htrimmed _ _

lemma numeric_integer (n : Int) : Numeric (integer n) :=
  numeric_signed _ (numeric_digits _)

lemma Numeric.unmarked {s : List Char} (h : Numeric s) : Unmarked s := by
  intro c hc
  constructor
  · rintro rfl
    exact absurd (h _ hc) (by decide)
  · rintro rfl
    exact absurd (h _ hc) (by decide)

end Decimal

lemma Number.numeric_chars (n : Number) : Decimal.Numeric n.chars := by
  unfold chars
  split
  · exact Decimal.numeric_integer _
  · exact Decimal.numeric_sixDigits _

lemma Number.unmarked_chars (n : Number) : Unmarked n.chars :=
  n.numeric_chars.unmarked

/-! ### Attributes and places -/

lemma toList_attr (name value : String) :
    (attr name value).toList = Tag.writeAttribute (name, value) := by
  simp [attr, escape, Tag.writeAttribute]

lemma unmarked_numberAttr (name : String) (hname : Unmarked name.toList) (value : Number) :
    Unmarked (numberAttr name value).toList := by
  have hvalue := value.unmarked_chars
  simp [numberAttr, Number.text, hname, hvalue]

namespace Geometry

lemma shows_pointElement (p : Point) {role : String} (hrole : Unmarked role.toList) :
    Shows (pointElement p role).toList [] := by
  have hx := unmarked_numberAttr "x" (by decide) p.x
  have hy := unmarked_numberAttr "y" (by decide) p.y
  have helement : (pointElement p role).toList = '<' :: ("mxPoint".toList ++ ' ' ::
      ((numberAttr "x" p.x).toList ++ ' ' :: ((numberAttr "y" p.y).toList ++
        (role.toList ++ ['/']))) ++ ['>']) := by
    simp [pointElement]
  rw [helement]
  refine Tag.shows_place (by decide) (by decide) ?_
  simp [hx, hy, hrole]

lemma shows_edgeParts (g : Geometry) : ∀ part ∈ g.edgeParts, Shows part.toList [] := by
  have hpoint : ∀ p role, Unmarked (String.toList role) →
      Shows ("    " ++ pointElement p role).toList [] := by
    intro p role hrole
    rw [String.toList_append]
    exact (Tag.shows_of_unmarked (by decide)).append (shows_pointElement p hrole)
  intro part hpart
  simp only [edgeParts, List.mem_append] at hpart
  rcases hpart with (hpart | hpart) | hpart
  · obtain ⟨p, -, rfl⟩ := Option.map_eq_some_iff.1 (Option.mem_toList.1 hpart)
    exact hpoint p _ (by decide)
  · obtain ⟨p, -, rfl⟩ := Option.map_eq_some_iff.1 (Option.mem_toList.1 hpart)
    exact hpoint p _ (by decide)
  · -- the points between the ends stand in an element of their own
    split at hpart
    · cases hpart
    · rw [List.mem_singleton.1 hpart]
      have hpoints : Shows (Text.join "\n"
          (g.points.map fun p => "      " ++ pointElement p "")).toList [] := by
        refine Tag.shows_join_places (by decide) fun part hpart => ?_
        obtain ⟨p, -, rfl⟩ := List.mem_map.1 hpart
        rw [String.toList_append]
        exact (Tag.shows_of_unmarked (by decide)).append (shows_pointElement p (by decide))
      simp only [String.toList_append]
      exact Shows.between (by decide_cbv) hpoints (by decide_cbv)

lemma shows_sides {sides : List String} (h : ∀ side ∈ sides, Unmarked side.toList) :
    Shows ("  <mxGeometry " ++ Text.join " " sides ++ " as=\"geometry\"/>").toList [] := by
  have hsides : Unmarked (Text.join " " sides).toList := by
    rw [Text.join, String.toList_intercalate]
    refine Tag.unmarked_intercalate (by decide) fun part hpart => ?_
    obtain ⟨side, hside, rfl⟩ := List.mem_map.1 hpart
    exact h side hside
  have helement : ("  <mxGeometry " ++ Text.join " " sides ++ " as=\"geometry\"/>").toList =
      "  ".toList ++ '<' :: ("mxGeometry".toList ++ ' ' :: ((Text.join " " sides).toList ++
        " as=\"geometry\"/".toList) ++ ['>']) := by
    simp
  rw [helement]
  refine (Tag.shows_of_unmarked (by decide)).append (Tag.shows_place (by decide) (by decide) ?_)
  simp [hsides]

lemma shows_render (g : Geometry) (isEdge : Bool) : Shows (g.render isEdge).toList [] := by
  unfold render
  split
  · split
    · decide_cbv
    · simp only [String.toList_append]
      have hparts := Tag.shows_join_places (by decide : Unmarked "\n".toList) g.shows_edgeParts
      exact Shows.between (by decide_cbv) hparts (by decide_cbv)
  · have hx := unmarked_numberAttr "x" (by decide) g.x
    have hy := unmarked_numberAttr "y" (by decide) g.y
    have hwidth := unmarked_numberAttr "width" (by decide) g.width
    have hheight := unmarked_numberAttr "height" (by decide) g.height
    dsimp only
    apply shows_sides
    split
    · simp [hx, hy, hwidth, hheight]
    · simp [hx, hy, hwidth, hheight]

end Geometry

namespace Cell

/-- An attribute, unless its value is empty. -/
def filledPair (name value : String) : List (String × String) :=
  if value.isEmpty then [] else [(name, value)]

/-- The names and values of the attributes of a cell. -/
def pairs (c : Cell) : List (String × String) :=
  [("id", c.id)] ++ filledPair "value" c.value ++ filledPair "style" c.style ++
  (if c.vertex then [("vertex", "1")] else []) ++ (if c.edge then [("edge", "1")] else []) ++
  filledPair "parent" c.parent ++ filledPair "source" (c.source.getD "") ++
  filledPair "target" (c.target.getD "")

/-- The tag of a cell. -/
def tag (c : Cell) : Tag :=
  ⟨"mxCell", c.pairs⟩

lemma map_attr_filledPair (name value : String) :
    (filledPair name value).map (fun p => attr p.1 p.2) = filled name value := by
  unfold filledPair filled
  split
  · rfl
  · rfl

lemma map_attr_pairs (c : Cell) : c.pairs.map (fun p => attr p.1 p.2) = c.attributes := by
  have hflag : ∀ (b : Bool) name, (if b then [(name, "1")] else []).map
      (fun p : String × String => attr p.1 p.2) = if b then [name ++ "=\"1\""] else [] := by
    intro b name
    cases b with
    | false => rfl
    | true =>
      have hone : escape "1" = "1" := by decide
      simp [attr, hone, String.append_assoc]
  have hvertex : "vertex" ++ "=\"1\"" = "vertex=\"1\"" := by decide
  have hedge : "edge" ++ "=\"1\"" = "edge=\"1\"" := by decide
  simp only [pairs, attributes, List.map_append, map_attr_filledPair, hflag, hvertex, hedge,
    List.map_cons, List.map_nil]

lemma isAttributeName_of_mem_pairs (c : Cell) :
    ∀ p ∈ c.pairs, Tag.isAttributeName p.1 = true := by
  have hfilled : ∀ name value, Tag.isAttributeName name = true →
      ∀ p ∈ filledPair name value, Tag.isAttributeName p.1 = true := by
    intro name value hname p hp
    unfold filledPair at hp
    split at hp
    · cases hp
    · rwa [List.mem_singleton.1 hp]
  have hflag : ∀ (b : Bool) name, Tag.isAttributeName name = true →
      ∀ p ∈ if b then [(name, "1")] else [], Tag.isAttributeName p.1 = true := by
    intro b name hname p hp
    split at hp
    · rwa [List.mem_singleton.1 hp]
    · cases hp
  have hid : ∀ p ∈ [("id", c.id)], Tag.isAttributeName p.1 = true := by
    intro p hp
    rw [List.mem_singleton.1 hp]
    exact (by decide : Tag.isAttributeName "id" = true)
  simp only [pairs, List.forall_mem_append]
  exact ⟨⟨⟨⟨⟨⟨⟨hid, hfilled _ _ (by decide)⟩, hfilled _ _ (by decide)⟩, hflag _ _ (by decide)⟩,
    hflag _ _ (by decide)⟩, hfilled _ _ (by decide)⟩, hfilled _ _ (by decide)⟩,
    hfilled _ _ (by decide)⟩

lemma toList_join_attr (ps : List (String × String)) (p : String × String) :
    ' ' :: (Text.join " " ((p :: ps).map fun p => attr p.1 p.2)).toList =
      Tag.writeAttributes (p :: ps) := by
  induction ps generalizing p with
  | nil => simp [Text.join, toList_attr, Tag.writeAttributes]
  | cons q ps ih =>
    have ih := ih q
    rw [Text.join, String.toList_intercalate] at ih ⊢
    -- the blank between two attributes is the one in front of the second
    rw [Tag.writeAttributes, List.flatMap_cons, ← Tag.writeAttributes, ← ih]
    simp [List.intercalate, toList_attr]

lemma shows_render (c : Cell) : Shows c.render.toList [c.tag] := by
  have hattributes : ' ' :: (Text.join " " c.attributes).toList = Tag.writeAttributes c.pairs := by
    rw [← map_attr_pairs]
    exact toList_join_attr _ _
  have htag : ∀ stop, stop = [] ∨ stop = ['/'] → Shows
      ('<' :: ("mxCell".toList ++ (Tag.writeAttributes c.pairs ++ stop) ++ ['>'])) [c.tag] :=
    fun stop hstop => Tag.shows_write (by decide) (by decide) (by decide)
      (isAttributeName_of_mem_pairs c) hstop
  unfold render
  cases c.geometry with
  | none =>
    have helement : ("<mxCell " ++ Text.join " " c.attributes ++ "/>").toList =
        '<' :: ("mxCell".toList ++ (Tag.writeAttributes c.pairs ++ ['/']) ++ ['>']) := by
      simp [← hattributes]
    exact helement ▸ htag ['/'] (.inr rfl)
  | some g =>
    have helement : ("<mxCell " ++ Text.join " " c.attributes ++ ">\n" ++ g.render c.edge ++
        "\n</mxCell>").toList = '<' :: ("mxCell".toList ++ (Tag.writeAttributes c.pairs ++ []) ++
          ['>']) ++ ("\n".toList ++ (g.render c.edge).toList ++ "\n</mxCell>".toList) := by
      simp [← hattributes]
    have hplace : Shows ("\n".toList ++ (g.render c.edge).toList ++ "\n</mxCell>".toList) [] :=
      Shows.between (by decide_cbv) (g.shows_render c.edge) (by decide_cbv)
    exact helement ▸ (htag [] (.inl rfl)).append hplace

end Cell

/-! ### What a tag says -/

/-- What the element of a cell says.  A text that is missing is empty, a mark that is missing is
off; the group's own cell has no id. -/
structure CellElement where
  id : Option String := none
  value : String := ""
  style : String := ""
  vertex : Bool := false
  edge : Bool := false
  parent : String := ""
  source : String := ""
  target : String := ""
deriving DecidableEq

namespace CellElement

/-- What the tag of a cell says. -/
def ofTag (t : Tag) : CellElement where
  id := t.value? "id"
  value := (t.value? "value").getD ""
  style := (t.value? "style").getD ""
  vertex := t.value? "vertex" == some "1"
  edge := t.value? "edge" == some "1"
  parent := (t.value? "parent").getD ""
  source := (t.value? "source").getD ""
  target := (t.value? "target").getD ""

/-- The fields of a cell. -/
def ofCell (c : Cell) : CellElement where
  id := some c.id
  value := c.value
  style := c.style
  vertex := c.vertex
  edge := c.edge
  parent := c.parent
  source := c.source.getD ""
  target := c.target.getD ""

lemma lookup_filledPair (key name value : String) :
    (Cell.filledPair name value).lookup key =
      if key = name ∧ value ≠ "" then some value else none := by
  unfold Cell.filledPair
  by_cases hvalue : value = ""
  · simp [hvalue]
  · by_cases hkey : key = name
    · simp [hvalue, hkey]
    · simp [hvalue, hkey, List.lookup_cons, beq_false_of_ne hkey]

lemma lookup_flag (b : Bool) (key name : String) :
    (if b then [(name, "1")] else []).lookup key =
      if b = true ∧ key = name then some "1" else none := by
  cases b with
  | false => rfl
  | true =>
    by_cases hkey : key = name
    · simp [hkey]
    · simp [hkey, List.lookup_cons, beq_false_of_ne hkey]

/-- What stands in the tag of a cell under a name. -/
lemma value?_tag (c : Cell) (key : String) : c.tag.value? key =
    ((((((((if key = "id" then some c.id else none).or
      (if key = "value" ∧ c.value ≠ "" then some c.value else none)).or
      (if key = "style" ∧ c.style ≠ "" then some c.style else none)).or
      (if c.vertex = true ∧ key = "vertex" then some "1" else none)).or
      (if c.edge = true ∧ key = "edge" then some "1" else none)).or
      (if key = "parent" ∧ c.parent ≠ "" then some c.parent else none)).or
      (if key = "source" ∧ c.source.getD "" ≠ "" then some (c.source.getD "") else none)).or
      (if key = "target" ∧ c.target.getD "" ≠ "" then some (c.target.getD "") else none)) := by
  have hid : [("id", c.id)].lookup key = if key = "id" then some c.id else none := by
    by_cases hkey : key = "id"
    · simp [hkey]
    · simp [hkey, List.lookup_cons, beq_false_of_ne hkey]
  simp only [Tag.value?, Cell.tag, Cell.pairs, List.lookup_append, lookup_filledPair, lookup_flag,
    hid]

lemma ofTag_tag (c : Cell) : ofTag c.tag = ofCell c := by
  have hfilled : ∀ s : String, (if s = "" then none else some s).getD "" = s := by
    intro s
    split
    · next hs => exact hs.symm
    · rfl
  have hflag : ∀ b : Bool, ((if b = true then some "1" else none) == some "1") = b := by
    intro b
    cases b with
    | false => rfl
    | true => decide
  unfold ofTag ofCell
  simp [value?_tag, hfilled, hflag]

end CellElement

end UmlDraw
