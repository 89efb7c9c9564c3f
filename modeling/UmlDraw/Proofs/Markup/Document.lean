/-
# Reading documents back

A reader of the tags of a document finds the page with its name, the group with the diagram text
and its id, and the cells in the order in which they were drawn, whatever characters the texts
hold.

The main statements are

* `Document.shows_wrap` and `Document.shows_group`: the tags of the frame of a drawing;
* `Registry.read_convert`: what is read of a drawing;
* `Contents.ids_ofCells`: the ids that a reader finds in a document;
* `Registry.nodup_ids_convert_iff`: they are different if and only if the group has none of the
  other ones.
-/
import UmlDraw.Proofs.Conversion.Frame
import UmlDraw.Proofs.Drawing.Dialect
import UmlDraw.Proofs.Markup.Cell
import UmlDraw.Settings.Basic

namespace UmlDraw

open Tag (Shows Unmarked)

/-- What a document says: the number of its files, the names of its pages, the diagram texts and the
ids of its groups, and its cells. -/
structure Contents where
  files : Nat
  pages : List (Option String)
  groups : List (Option String × Option String)
  cells : List CellElement
deriving DecidableEq

namespace Contents

/-- What some tags say. -/
def ofTags (ts : List Tag) : Contents where
  files := (ts.filter fun t => t.name == "mxfile").length
  pages := (ts.filter fun t => t.name == "diagram").map fun t => t.value? "name"
  groups := (ts.filter fun t => t.name == "UserObject").map fun t =>
    (t.value? "plantUml", t.value? "id")
  cells := (ts.filter fun t => t.name == "mxCell").map CellElement.ofTag

/-- What a document says. -/
def read (xml : String) : Contents :=
  ofTags (Tag.readAll xml.toList)

/-- Only the tags that count say something. -/
lemma ofTags_filter (ts : List Tag) : ofTags (ts.filter Tag.isMain) = ofTags ts := by
  have hnamed : ∀ name, Tag.isMain ⟨name, []⟩ = true →
      (ts.filter Tag.isMain).filter (fun t => t.name == name) =
        ts.filter fun t => t.name == name := by
    intro name hname
    rw [List.filter_filter]
    refine List.filter_congr fun t _ => ?_
    by_cases ht : t.name = name
    · have hmain : t.isMain = true := by
        rw [Tag.isMain, ht]
        exact hname
      rw [hmain, Bool.and_true]
    · rw [beq_false_of_ne ht, Bool.false_and]
  unfold ofTags
  rw [hnamed "mxfile" (by decide), hnamed "diagram" (by decide), hnamed "UserObject" (by decide),
    hnamed "mxCell" (by decide)]

end Contents

namespace Document

lemma shows_wrap {elements : String} {ts : List Tag} (h : Shows elements.toList ts)
    (name : String) : Shows (wrap elements name).toList
      ([⟨"mxfile", []⟩, ⟨"diagram", [("name", name)]⟩, ⟨"mxCell", [("id", "0")]⟩,
        ⟨"mxCell", [("id", "1"), ("parent", "0")]⟩] ++ ts) := by
  have hpage : Shows ('<' :: ("diagram".toList ++ (Tag.writeAttributes [("name", name)] ++ []) ++
      ['>'])) [⟨"diagram", [("name", name)]⟩] :=
    Tag.shows_write (by decide) (by decide) (by decide) (by simp; decide) (.inl rfl)
  -- the fixed parts are cut where the tag with the name begins and ends
  have hbefore : beforeName.toList = "<mxfile>\n  ".toList ++
      '<' :: ("diagram".toList ++ ' ' :: ("name".toList ++ ['=', '"'])) := by decide_cbv
  have hafter : beforeElements.toList = '"' :: '>' :: beforeElements.toList.drop 2 := by
    decide_cbv
  have hwrap : (wrap elements name).toList = "<mxfile>\n  ".toList ++
      ('<' :: ("diagram".toList ++ (Tag.writeAttributes [("name", name)] ++ []) ++ ['>'])) ++
      (beforeElements.toList.drop 2 ++ (elements.toList ++ afterElements.toList)) := by
    rw [wrap_eq]
    simp only [String.toList_append, hbefore, escape, String.toList_ofList, Tag.writeAttributes,
      Tag.writeAttribute, List.flatMap_cons, List.flatMap_nil, List.append_assoc, List.cons_append,
      List.nil_append, List.append_nil]
    rw [hafter]
    simp only [List.cons_append, List.drop_succ_cons, List.drop_zero]
  have hroot : Shows (beforeElements.toList.drop 2) [⟨"mxCell", [("id", "0")]⟩,
      ⟨"mxCell", [("id", "1"), ("parent", "0")]⟩] := by decide_cbv
  have hfile : Shows "<mxfile>\n  ".toList [⟨"mxfile", []⟩] := by decide_cbv
  have hend : Shows afterElements.toList [] := by decide_cbv
  rw [hwrap]
  simpa using (hfile.append hpage).append (hroot.append (h.append hend))

/-- The place of a group. -/
lemma shows_groupPlace (width height : Number) :
    Shows ("    <mxGeometry x=\"0\" y=\"0\" " ++ numberAttr "width" width ++ " " ++
      numberAttr "height" height ++ " as=\"geometry\"/>\n").toList [] := by
  have hwidth := unmarked_numberAttr "width" (by decide) width
  have hheight := unmarked_numberAttr "height" (by decide) height
  have hbefore : "    <mxGeometry x=\"0\" y=\"0\" ".toList =
      "    ".toList ++ '<' :: ("mxGeometry".toList ++ ' ' :: "x=\"0\" y=\"0\" ".toList) := by
    decide_cbv
  have hafter : " as=\"geometry\"/>\n".toList = " as=\"geometry\"/".toList ++ ['>', '\n'] := by
    decide_cbv
  have hplace : Shows ('<' :: ("mxGeometry".toList ++ ' ' :: ("x=\"0\" y=\"0\" ".toList ++
      ((numberAttr "width" width).toList ++ (" ".toList ++ ((numberAttr "height" height).toList ++
        " as=\"geometry\"/".toList)))) ++ ['>'])) [] := by
    refine Tag.shows_place (by decide) (by decide) ?_
    simp [hwidth, hheight]
  have hstart : Shows "    ".toList [] := by decide
  have hstop : Shows ['\n'] [] := by decide
  have hshows := hstart.between hplace hstop
  simp only [String.toList_append, hbefore, hafter]
  simpa only [List.append_assoc, List.cons_append, List.nil_append] using hshows

lemma shows_group {id source cells body : String} {width height : Number} {ts : List Tag}
    (hbody : group id source cells width height = .ok body) (h : Shows cells.toList ts) :
    Shows body.toList
      ([⟨"UserObject", [("label", ""), ("plantUml", source), ("id", id)]⟩,
        ⟨"mxCell", [("style", "group;editable=0;connectable=0;"), ("vertex", "1"),
          ("parent", "1")]⟩] ++ ts) := by
  have hgroup : Shows ('<' :: ("UserObject".toList ++ (Tag.writeAttributes
      [("label", ""), ("plantUml", source), ("id", id)] ++ []) ++ ['>']))
        [⟨"UserObject", [("label", ""), ("plantUml", source), ("id", id)]⟩] :=
    Tag.shows_write (by decide) (by decide) (by decide) (by simp; decide) (.inl rfl)
  have hopening : beforeSource.toList = '<' :: ("UserObject".toList ++ ' ' :: ("label".toList ++
      '=' :: '"' :: '"' :: ' ' :: ("plantUml".toList ++ ['=', '"']))) := by decide_cbv
  have hid : beforeId.toList = '"' :: ' ' :: ("id".toList ++ ['=', '"']) := by decide_cbv
  have hquote : "\"".toList = ['"'] := by decide
  have hclose : ">\n".toList = ['>', '\n'] := by decide
  have hempty : Escape.escapeChars "".toList = [] := by decide
  have hcell : Shows ('\n' ::
      "  <mxCell style=\"group;editable=0;connectable=0;\" vertex=\"1\" parent=\"1\">\n".toList)
        [⟨"mxCell", [("style", "group;editable=0;connectable=0;"), ("vertex", "1"),
          ("parent", "1")]⟩] := by decide_cbv
  have hends : Shows ("  </mxCell>\n".toList ++ "</UserObject>\n".toList) [] := by decide_cbv
  have hshows := (hgroup.append hcell).append
    (((shows_groupPlace width height).append hends).append h)
  rw [group_eq_ok hbody]
  simp only [String.toList_append, beforeCells, hopening, hid, hquote, hclose, escape,
    String.toList_ofList]
  simpa only [Tag.writeAttributes, Tag.writeAttribute, List.flatMap_cons, List.flatMap_nil, hempty,
    String.toList_append, List.append_assoc, List.cons_append, List.nil_append,
    List.append_nil] using hshows

lemma shows_cells (cells : List Cell) :
    Shows (Cell.renderAll cells).toList (cells.map Cell.tag) := by
  have hcells := Tag.shows_join (by decide : Unmarked "\n".toList) fun c (_ : c ∈ cells) =>
    c.shows_render
  rwa [← List.map_eq_flatMap] at hcells

end Document

namespace Contents

/-- What is read of the two cells above all drawings, of a group, and of the cells in it. -/
def ofCells (cells : List Cell) : List CellElement :=
  [{ id := "0" }, { id := "1", parent := "0" },
    { style := "group;editable=0;connectable=0;", vertex := true, parent := "1" }] ++
  cells.map CellElement.ofCell

lemma filter_tags (cells : List Cell) (name : String) :
    (cells.map Cell.tag).filter (fun t => t.name == name) =
      if name = "mxCell" then cells.map Cell.tag else [] := by
  split
  · next hname =>
    refine List.filter_eq_self.2 fun t ht => ?_
    obtain ⟨c, -, rfl⟩ := List.mem_map.1 ht
    exact beq_iff_eq.2 hname.symm
  · next hname =>
    refine List.filter_eq_nil_iff.2 fun t ht => ?_
    obtain ⟨c, -, rfl⟩ := List.mem_map.1 ht
    exact fun heq => hname (beq_iff_eq.1 heq).symm

lemma ofTags_drawing (name source id : String) (cells : List Cell) :
    ofTags ([⟨"mxfile", []⟩, ⟨"diagram", [("name", name)]⟩, ⟨"mxCell", [("id", "0")]⟩,
        ⟨"mxCell", [("id", "1"), ("parent", "0")]⟩] ++
      ([⟨"UserObject", [("label", ""), ("plantUml", source), ("id", id)]⟩,
        ⟨"mxCell", [("style", "group;editable=0;connectable=0;"), ("vertex", "1"),
          ("parent", "1")]⟩] ++ cells.map Cell.tag)) =
      ⟨1, [some name], [(some source, some id)], ofCells cells⟩ := by
  have hcells : (cells.map Cell.tag).map CellElement.ofTag = cells.map CellElement.ofCell := by
    rw [List.map_map]
    exact List.map_congr_left fun c _ => CellElement.ofTag_tag c
  unfold ofTags ofCells
  simp only [List.filter_append, List.map_append, filter_tags]
  simp [Tag.value?, List.lookup_cons, CellElement.ofTag, hcells]

end Contents

namespace Registry

/-- A document with a drawing in a group is read back: one file with one page of the given name, one
group with the diagram text and the id, and behind the cells of the frame the cells of the drawing,
field by field and in order. -/
theorem read_convert {text : String} {o : ConversionOptions} {c : Conversion}
    (hdocument : o.inDocument = true) (hgroup : o.inGroup = true)
    (h : standard.convert text o = .ok c) :
    ∃ (d : Dialect) (cells : List Cell), c.dialect = d.key ∧ d.draw text o.group = .ok cells ∧
      Contents.read c.xml =
        ⟨1, [some o.name], [(some text, some o.group)], Contents.ofCells cells⟩ := by
  obtain ⟨handler, cells, body, hdetect, hdraw, hbody, hxml⟩ := convert_eq_ok h
  obtain ⟨d, hkey, rfl⟩ := exists_dialect_of_detect? hdetect
  obtain ⟨width, height, hbody⟩ := grouped_eq_ok hgroup hbody
  rw [ConversionOptions.parent_of_inGroup hgroup] at hdraw
  refine ⟨d, cells, hkey, hdraw, ?_⟩
  have hbody := Document.shows_group hbody (Document.shows_cells cells)
  have hshows := Document.shows_wrap hbody o.name
  rw [hxml, if_pos hdocument, Contents.read, ← Contents.ofTags_filter, hshows.tags,
    Contents.ofTags_drawing]

/-- A label, the name of a page and the id of a group that look like markup are read back. -/
theorem read_convert_lookalike :
    ∃ c, standard.convert lookalike { name := "\">", groupId := some "&g" } = .ok c ∧
      (Contents.read c.xml).pages = [some "\">"] ∧
      (Contents.read c.xml).groups = [(some lookalike, some "&g")] := by
  obtain ⟨c, hc⟩ := exists_convert_lookalike
  obtain ⟨d, cells, -, -, hread⟩ := read_convert rfl rfl hc
  refine ⟨c, hc, ?_, ?_⟩
  · rw [hread]
  · rw [hread]
    rfl

end Registry
end UmlDraw

/-! ## The ids of a document

A document names its two outer cells, its group and the cells in the group.  The cells in the group
are numbered, so the only id that can stand twice is the one that was chosen for the group. -/

namespace UmlDraw

namespace Contents

/-- The ids of a document: those of its groups and those of its cells. -/
def ids (d : Contents) : List String :=
  d.groups.filterMap Prod.snd ++ d.cells.filterMap CellElement.id

lemma ids_ofCells (files : Nat) (pages : List (Option String)) (source : Option String)
    (id : String) (cells : List Cell) :
    (Contents.mk files pages [(source, some id)] (ofCells cells)).ids =
      id :: "0" :: "1" :: cells.map Cell.id := by
  have hcells : (cells.map CellElement.ofCell).filterMap CellElement.id = cells.map Cell.id := by
    rw [List.filterMap_map]
    exact List.filterMap_eq_map' .. ▸ rfl
  simp [ids, ofCells, hcells]

end Contents

namespace Document

/-- A numbered id has a hyphen, so it is no id of the frame of a document. -/
lemma numberedId_ne {stem id : String} (n : Nat) (hid : '-' ∉ id.toList) :
    numberedId stem n ≠ id := by
  rintro rfl
  exact hid (by simp [numberedId])

lemma mem_numberedIds_iff {stem id : String} {count : Nat} :
    id ∈ numberedIds stem count ↔ ∃ k, 1 ≤ k ∧ k ≤ count ∧ id = numberedId stem k := by
  unfold numberedIds
  constructor
  · intro h
    obtain ⟨n, hn, rfl⟩ := List.mem_map.1 h
    exact ⟨n + 1, Nat.succ_pos n, List.mem_range.1 hn, rfl⟩
  · rintro ⟨k, hpos, hle, rfl⟩
    refine List.mem_map.2 ⟨k - 1, List.mem_range.2 (by omega), ?_⟩
    rw [Nat.sub_add_cancel hpos]

end Document

/-- The ids of the frame and of connected cells are different, and those of the cells are numbered. -/
lemma Cell.Connected.nodup_cons_iff {parent id : String} {cells : List Cell}
    (h : Cell.Connected parent cells) :
    (id :: "0" :: "1" :: cells.map Cell.id).Nodup ↔
      id ≠ "0" ∧ id ≠ "1" ∧ ∀ k, 1 ≤ k → k ≤ cells.length → id ≠ Document.numberedId "puml" k := by
  have hframe : ∀ s ∈ ["0", "1"], s ∉ cells.map Cell.id := by
    intro s hs hmem
    obtain ⟨k, -, -, hk⟩ := Document.mem_numberedIds_iff.1 (h.ids.subset hmem)
    have hhyphen : ∀ s ∈ ["0", "1"], '-' ∉ s.toList := by decide
    exact Document.numberedId_ne k (hhyphen s hs) hk.symm
  have hrest : ("0" :: "1" :: cells.map Cell.id).Nodup :=
    List.nodup_cons.2 ⟨by simpa using hframe "0" (by decide),
      List.nodup_cons.2 ⟨hframe "1" (by decide), h.nodup⟩⟩
  have hmem : id ∈ cells.map Cell.id ↔
      ∃ k, 1 ≤ k ∧ k ≤ cells.length ∧ id = Document.numberedId "puml" k :=
    h.ids.mem_iff.trans Document.mem_numberedIds_iff
  rw [List.nodup_cons, and_iff_left hrest, List.mem_cons, List.mem_cons, hmem, not_or, not_or,
    not_exists]
  simp only [not_and, ne_eq]

namespace Registry

/-- What a reader finds in a document with a drawing in a group. -/
lemma read_document_of_convert {text : String} {o : ConversionOptions} {c : Conversion}
    (hdocument : o.inDocument = true) (hgroup : o.inGroup = true)
    (h : standard.convert text o = .ok c) :
    ∃ (d : Dialect) (cells : List Cell), c.dialect = d.key ∧ d.draw text o.group = .ok cells ∧
      (Contents.read c.xml).ids = o.group :: "0" :: "1" :: cells.map Cell.id := by
  obtain ⟨d, cells, body, hkey, hdraw, hbody, hxml⟩ := exists_group_of_convert hgroup h
  refine ⟨d, cells, hkey, hdraw, ?_⟩
  have hshows := Document.shows_wrap (Document.shows_group hbody (Document.shows_cells cells)) o.name
  rw [hxml, if_pos hdocument, Contents.read, ← Contents.ofTags_filter, hshows.tags,
    Contents.ofTags_drawing, Contents.ids_ofCells]

/-- In a document with a drawing in a group a reader finds the id of the group, those of the two
outer cells, and those of the cells in the group.  They are pairwise different if and only if the id
of the group is neither that of an outer cell nor one of the numbered ids of the cells. -/
theorem nodup_ids_convert_iff {text : String} {o : ConversionOptions} {c : Conversion}
    (hdocument : o.inDocument = true) (hgroup : o.inGroup = true)
    (h : standard.convert text o = .ok c) :
    ∃ (d : Dialect) (cells : List Cell), c.dialect = d.key ∧ d.draw text o.group = .ok cells ∧
      (Contents.read c.xml).ids = o.group :: "0" :: "1" :: cells.map Cell.id ∧
      ((Contents.read c.xml).ids.Nodup ↔ o.group ≠ "0" ∧ o.group ≠ "1" ∧
        ∀ k, 1 ≤ k → k ≤ cells.length → o.group ≠ Document.numberedId "puml" k) := by
  obtain ⟨d, cells, hkey, hdraw, hids⟩ := read_document_of_convert hdocument hgroup h
  refine ⟨d, cells, hkey, hdraw, hids, ?_⟩
  rw [hids]
  exact (Dialect.drawing_of_draw hdraw).connected.nodup_cons_iff

/-- A start, a state and the connector between them: the group has the next numbered id. -/
theorem nodup_ids_convert_next :
    ∃ c, standard.convert "[*] --> a" { groupId := some "puml-4" } = .ok c ∧
      (Contents.read c.xml).ids.Nodup := by
  obtain ⟨c, hc, hdialect⟩ := Fault.exists_of_any (by decide +kernel :
    (standard.convert "[*] --> a" { groupId := some "puml-4" }).toOption.any
      (fun c => c.dialect == Dialect.states.key) = true)
  obtain ⟨d, cells, hkey, hdraw, -, hiff⟩ := nodup_ids_convert_iff rfl rfl hc
  obtain rfl := Dialect.key_injective (hkey.symm.trans (beq_iff_eq.1 hdialect))
  have hcells : cells.length = 3 := by
    rw [← Except.ok.inj hdraw]
    decide +kernel
  refine ⟨c, hc, hiff.2 ⟨by decide, by decide, fun k hpos hle heq => ?_⟩⟩
  -- the group has the fourth id, and the ids are numbered without repetition
  have hfourth : ConversionOptions.group { groupId := some "puml-4" } =
      Document.numberedId "puml" 4 := by decide
  have hk := Document.numberedId_injective (hfourth.symm.trans heq)
  omega

/-- With the stem of the numbered ids in the settings, the group has the id of the first cell. -/
theorem not_nodup_ids_convert_numbered :
    ∃ c, standard.convert "[*] --> a"
        { groupId := some ({ groupStem := "puml" } : Settings).groupId } = .ok c ∧
      (Contents.read c.xml).ids = ["puml-1", "0", "1", "puml-1", "puml-2", "puml-3"] ∧
      ¬ (Contents.read c.xml).ids.Nodup := by
  obtain ⟨c, hc, hdialect⟩ := Fault.exists_of_any (by decide +kernel :
    (standard.convert "[*] --> a"
      { groupId := some ({ groupStem := "puml" } : Settings).groupId }).toOption.any
      (fun c => c.dialect == Dialect.states.key) = true)
  obtain ⟨d, cells, hkey, hdraw, hids⟩ := read_document_of_convert rfl rfl hc
  obtain rfl := Dialect.key_injective (hkey.symm.trans (beq_iff_eq.1 hdialect))
  have hcells : cells.map Cell.id = ["puml-1", "puml-2", "puml-3"] := by
    rw [← Except.ok.inj hdraw]
    decide +kernel
  have hgroup : ConversionOptions.group
      { groupId := some ({ groupStem := "puml" } : Settings).groupId } = "puml-1" := by decide
  rw [hcells, hgroup] at hids
  refine ⟨c, hc, hids, ?_⟩
  rw [hids]
  decide

end Registry
end UmlDraw
