/-
# The diagram text in a drawing

A drawing in a group carries the text that it was made from, and it is drawn again from this text in
the group of its id.  Both are found by their attributes, so nothing else must look like one.

The main statements are

* `Document.source?_eq`: the attribute of a group is found behind a part that has none;
* `Registry.source?_convert`: a drawing gives back exactly its text, and so its dialect;
* `Registry.source?_convert_of_suffix`: if the name of the page looks like the attribute, what is
  read is the frame of the document;
* `Registry.groupId?_convert`: the id that is found;
* `Registry.regenerate_convert_iff`: drawing again gives the same drawing if and only if neither
  the name of the page nor the text looks like an attribute.
-/
import Mathlib.Tactic.Lemma
import UmlDraw.Proofs.Conversion.Frame
import UmlDraw.Proofs.Text.Replaced
import UmlDraw.Proofs.Text.Search

namespace UmlDraw

/-! ## Reading the text

A drawing in a group carries the text that it was made from.  It is found by its attribute, the
first one of that name in the drawing, so what stands before it must not look like one: only the
name of the page could, if it ends with the name of the attribute and an equality sign. -/

namespace Document

/-- The name of the attribute that carries a diagram text, with the equality sign. -/
def sourceName : List Char :=
  "plantUml=".toList

lemma start_sourceAttribute (s : List Char) :
    sourceAttribute.start s = (Chars.after? (sourceName ++ ['"']) s).bind fun t =>
      (Scan.many (· != '"')).run t fun v t => (Scan.char '"').run t fun _ t => some (v, t) := by
  have htext : "plantUml=\"".toList = sourceName ++ ['"'] := by decide
  rw [← htext]
  exact Scan.run_text "plantUml=\"" s fun _ t =>
    (Scan.many (· != '"')).run t fun v t => (Scan.char '"').run t fun _ t => some (v, t)

lemma start_sourceAttribute_of_after?_eq_none {s : List Char}
    (h : Chars.after? (sourceName ++ ['"']) s = none) : sourceAttribute.start s = none := by
  rw [start_sourceAttribute, h]
  rfl

lemma start_sourceAttribute_append {v : List Char} (hv : '"' ∉ v) (s : List Char) :
    sourceAttribute.start (sourceName ++ '"' :: (v ++ '"' :: s)) = some (String.ofList v, s) := by
  have hafter : Chars.after? (sourceName ++ ['"']) (sourceName ++ '"' :: (v ++ '"' :: s)) =
      some (v ++ '"' :: s) := by
    simpa using Chars.after?_append (sourceName ++ ['"']) (v ++ '"' :: s)
  rw [start_sourceAttribute, hafter, Option.bind_some, Scan.run_many]
  · rw [Chars.takeWhile_stop hv, Chars.dropWhile_stop hv, Scan.run_char_cons]
  · intro a c t hc
    exact Scan.run_char_of_ne (by simpa using hc) t _

/-- A part without the attribute: no text from there up to the next quotation mark is its name. -/
lemma failsOn_sourceAttribute {x z : List Char} (hquote : '"' ∉ x ++ z)
    (hname : ∀ b, b <:+ x → b ≠ [] → b ++ z ≠ sourceName) (s : List Char) :
    sourceAttribute.FailsOn x (z ++ '"' :: s) := by
  rintro a b rfl hb
  apply start_sourceAttribute_of_after?_eq_none
  have hquote' : '"' ∉ b ++ z := fun h => hquote (by
    rw [List.append_assoc]
    exact List.mem_append_right a h)
  rw [← List.append_assoc, Chars.after?_stop (by decide) hquote',
    if_neg (hname b (List.suffix_append a b) hb)]

lemma failsOn_sourceAttribute_of_avoids {x : List Char}
    (hx : Chars.avoids (sourceName ++ ['"']) x = true) (s : List Char) :
    sourceAttribute.FailsOn x s :=
  Scan.failsOn_of_avoids (fun _ => start_sourceAttribute_of_after?_eq_none) hx s

/-- In front of the elements of a drawing no attribute looks like one for the diagram text, unless
the name of the page makes it so. -/
lemma failsOn_head {inDocument : Bool} {name : String}
    (hname : inDocument = true → ¬ sourceName <:+ name.toList) (s : List Char) :
    sourceAttribute.FailsOn (head inDocument name).toList s := by
  cases inDocument with
  | false => exact Scan.FailsOn.nil _ _
  | true =>
    have helements : beforeElements.toList = '"' :: (beforeElements.toList.drop 1) := by
      decide_cbv
    simp only [head, reduceIte, escape, String.toList_append, String.toList_ofList]
    refine Scan.FailsOn.append (Scan.FailsOn.append ?_ ?_) ?_
    · exact failsOn_sourceAttribute_of_avoids (by decide_cbv) _
    · -- the name of the page ends at the quotation mark in front of the elements
      rw [helements]
      refine failsOn_sourceAttribute (z := []) (by simp [Escape.quote_not_mem_escapeChars]) ?_ _
      rintro b hb - hsource
      rw [List.append_nil] at hsource
      rw [hsource, Escape.suffix_escapeChars_iff (by decide)] at hb
      exact hname rfl hb
    · exact failsOn_sourceAttribute_of_avoids (by decide_cbv) _

lemma source?_eq {xml : String} {x s : List Char} {v : List Char} (hv : '"' ∉ v) (hne : v ≠ [])
    (hxml : xml.toList = x ++ (sourceName ++ '"' :: (v ++ '"' :: s)))
    (hx : sourceAttribute.FailsOn x (sourceName ++ '"' :: (v ++ '"' :: s))) :
    source? xml = some (String.ofList (Escape.unescapeChars v)) := by
  have hempty : (String.ofList v).isEmpty = false := by
    simpa using hne
  unfold source?
  rw [hxml, Scan.search_append hx, Scan.search_of_start (start_sourceAttribute_append hv s)]
  simp [hempty, unescape]

end Document

namespace Registry

lemma source?_of_convert {text : String} {o : ConversionOptions} {c : Conversion}
    (hgroup : o.inGroup = true)
    (hname : o.inDocument = true → ¬ Document.sourceName <:+ o.name.toList)
    (h : standard.convert text o = .ok c) : Document.source? c.xml = some text := by
  obtain ⟨rest, hxml⟩ := toList_xml_of_convert hgroup h
  have hne : Escape.escapeChars text.toList ≠ [] := by
    rw [ne_eq, Escape.escapeChars_eq_nil_iff]
    simpa using source_ne_empty h
  obtain ⟨opening, hopening, havoids⟩ : ∃ opening,
      Document.beforeSource.toList = opening ++ (Document.sourceName ++ ['"']) ∧
        Chars.avoids (Document.sourceName ++ ['"']) opening = true :=
    ⟨"<UserObject label=\"\" ".toList, by decide_cbv, by decide_cbv⟩
  obtain ⟨beforeId, hid⟩ : ∃ s, Document.beforeId.toList = '"' :: s :=
    ⟨Document.beforeId.toList.drop 1, by decide_cbv⟩
  have hquote := Escape.quote_not_mem_escapeChars text.toList
  rw [hopening, hid] at hxml
  rw [Document.source?_eq (x := (Document.head o.inDocument o.name).toList ++ opening) hquote hne
    (by simpa only [List.append_assoc, List.cons_append, List.nil_append] using hxml),
    Escape.unescapeChars_escapeChars, String.ofList_toList]
  exact Scan.FailsOn.append (Document.failsOn_head hname _)
    (Document.failsOn_sourceAttribute_of_avoids havoids _)

/-- The text that a drawing in a group carries is the text that it was made from, character by
character, and belongs to the dialect that the conversion reports. -/
theorem source?_convert {text : String} {o : ConversionOptions} {c : Conversion}
    (hgroup : o.inGroup = true) (hname : ¬ "plantUml=".toList <:+ o.name.toList)
    (h : standard.convert text o = .ok c) :
    Document.source? c.xml = some text ∧
      ∃ handler, (Document.source? c.xml).map standard.detect? =
        some (.ok (some (c.dialect, handler))) := by
  have hsource := source?_of_convert hgroup (fun _ => hname) h
  obtain ⟨handler, -, -, hdetect, -⟩ := convert_eq_ok h
  exact ⟨hsource, handler, by rw [hsource, Option.map_some, hdetect]⟩

/-- A text with special characters of every kind, on a page with a quotation mark in its name. -/
theorem source?_convert_lookalike :
    ∃ c, standard.convert lookalike { name := "\">", groupId := some "&g" } = .ok c ∧
      Document.source? c.xml = some lookalike := by
  obtain ⟨c, hc⟩ := exists_convert_lookalike
  exact ⟨c, hc, (source?_convert rfl (by decide) hc).1⟩

/-- The part of the frame between the name of the page and the id of the first cell. -/
def framePart : String :=
  ">\n    <mxGraphModel>\n      <root>\n        <mxCell id="

/-- If the name of the page ends like the attribute, its closing quotation mark opens what is
read. -/
lemma source?_convert_of_suffix {text : String} {o : ConversionOptions} {c : Conversion}
    (hgroup : o.inGroup = true) (hdocument : o.inDocument = true)
    (hname : Document.sourceName <:+ o.name.toList)
    (h : standard.convert text o = .ok c) : Document.source? c.xml = some framePart := by
  obtain ⟨rest, hxml⟩ := toList_xml_of_convert hgroup h
  obtain ⟨y, hy⟩ := hname
  obtain ⟨tail, htail⟩ : ∃ tail,
      Document.beforeElements.toList = '"' :: (framePart.toList ++ '"' :: tail) :=
    ⟨Document.beforeElements.toList.drop 55, by decide_cbv⟩
  have hplain : Escape.escapeChars Document.sourceName = Document.sourceName := by decide
  have hquote := Escape.quote_not_mem_escapeChars y
  simp only [Document.head, hdocument, reduceIte, escape, String.toList_append,
    String.toList_ofList, ← hy, Escape.escapeChars_append, hplain, htail, List.append_assoc,
    List.cons_append] at hxml
  -- the closing quotation mark of the name of the page opens what is read, up to the first id
  rw [Document.source?_eq (x := Document.beforeName.toList ++ Escape.escapeChars y)
    (v := framePart.toList) (by decide_cbv) (by decide_cbv)
    (by rw [hxml, List.append_assoc])]
  · decide_cbv
  · refine Scan.FailsOn.append (Document.failsOn_sourceAttribute_of_avoids (by decide_cbv) _) ?_
    refine Document.failsOn_sourceAttribute ?_ ?_ _
    · rw [List.mem_append, not_or]
      exact ⟨hquote, by decide⟩
    · intro b _ hb hname
      exact hb (List.append_left_eq_self.1 hname)

end Registry

/-! ## Drawing a drawing again

A drawing in a group is drawn again from its text, in the group of its id.  The text comes out of
the drawing unchanged.  The id is looked for in the opening tag behind the text, up to the first
attribute that looks like one; a text that ends with `id=` where no word goes on looks like one
itself, together with the quotation mark behind it. -/


/-- The text ends with the name of an id and an equality sign, and no word goes on there. -/
def EndsLikeId (text : String) : Prop :=
  ∃ x, text.toList = x ++ "id=".toList ∧ x.getLast?.any Letter.isWord = false

namespace Document

/-! ### Reading the id of a group -/

/-- The name of the attribute for an id, with the equality sign. -/
def idName : List Char :=
  "id=".toList

/-- What is read of an id where the lazy part of the tag ends; that part is given in reverse. -/
def readId (seen s : List Char) : Option (String × List Char) :=
  if seen.head?.any Letter.isWord then none
  else
    (Chars.after? (idName ++ ['"']) s).bind fun t =>
      (Scan.many1 (· != '"')).run t fun v t => (Scan.char '"').run t fun _ t => some (v, t)

lemma start_groupIdAttribute (s : List Char) :
    groupIdAttribute.start s = (Chars.after? "<UserObject".toList s).bind fun t =>
      if t.head?.any Letter.isWord then none else Scan.shortest (· != '>') readId [] t := by
  have hid : "id=\"".toList = idName ++ ['"'] := by decide
  unfold Scan.start groupIdAttribute
  rw [Scan.run_bind, Scan.run_text]
  congr 1
  funext t
  rw [Scan.run_bind, Scan.run_wordEnd]
  simp only [Scan.run_bind, Scan.run_few, Scan.run_require, Scan.run_text, Scan.run_pure,
    String.toList_ofList, hid]
  -- what is read behind the part that is passed over depends on its last character
  congr 2
  funext seen rest
  rw [List.getLast?_reverse, readId]
  cases seen.head? with
  | none => rfl
  | some c => cases h : Letter.isWord c <;> simp [h]

/-- Where a fixed part clashes with the name of an id, no id is read. -/
lemma readId_of_avoids {b : List Char} (hb : Chars.avoids (idName ++ ['"']) b = true)
    (hne : b ≠ []) (seen s : List Char) : readId seen (b ++ s) = none := by
  obtain ⟨c, b, rfl⟩ := List.exists_cons_of_ne_nil hne
  rw [Chars.avoids, Bool.and_eq_true] at hb
  rw [readId, Chars.after?_of_clashes hb.1]
  simp

/-- In front of a quotation mark an id is read only behind its name. -/
lemma readId_of_ne {b : List Char} (hquote : '"' ∉ b) (hname : b ≠ idName)
    (seen s : List Char) : readId seen (b ++ '"' :: s) = none := by
  rw [readId, Chars.after?_stop (by decide) hquote, if_neg hname]
  simp

/-- Behind its name an id is read up to the next quotation mark. -/
lemma readId_of_name {seen v : List Char} (hseen : seen.head?.any Letter.isWord = false)
    (hquote : '"' ∉ v) (hne : v ≠ []) (s : List Char) :
    readId seen (idName ++ '"' :: (v ++ '"' :: s)) = some (String.ofList v, s) := by
  have htake : (v ++ '"' :: s).takeWhile (· != '"') = v := Chars.takeWhile_stop hquote s
  rw [readId, if_neg (by simp [hseen]), Chars.after?_stop (by decide) (by decide), if_pos rfl,
    Option.bind_some, Scan.run_many1 _ (by rwa [htake])]
  · rw [htake, Chars.dropWhile_stop hquote, Scan.run_char_cons]
  · intro a c t hc
    exact Scan.run_char_of_ne (by simpa using hc) t _

/-- A lazy part passes over a fixed part that clashes with the name of an id. -/
lemma shortest_readId_of_avoids {x : List Char} (hx : Chars.avoids (idName ++ ['"']) x = true)
    (hgt : '>' ∉ x) (seen s : List Char) :
    Scan.shortest (· != '>') readId seen (x ++ s) =
      Scan.shortest (· != '>') readId (x.reverse ++ seen) s := by
  apply Scan.shortest_append
  · exact Chars.all_ne_of_not_mem hgt
  · rintro a b rfl hb
    exact readId_of_avoids (Chars.avoids_of_append hx) hb _ _

/-- What stands between the word for a group and its text. -/
def sourcePart : List Char :=
  " label=\"\" plantUml=\"".toList

lemma toList_beforeSource : beforeSource.toList = "<UserObject".toList ++ sourcePart := by
  decide_cbv

lemma toList_beforeId : beforeId.toList = ['"', ' '] ++ (idName ++ ['"']) := by
  decide_cbv

/-- The tag of a group is read up to its text. -/
lemma start_groupIdAttribute_beforeSource (s : List Char) :
    groupIdAttribute.start (beforeSource.toList ++ s) =
      Scan.shortest (· != '>') readId sourcePart.reverse s := by
  have hhead : (sourcePart ++ s).head?.any Letter.isWord = false := by
    have hpart : sourcePart.head? = some ' ' := by decide
    rw [List.head?_append, hpart]
    rfl
  rw [start_groupIdAttribute, toList_beforeSource, List.append_assoc, Chars.after?_append,
    Option.bind_some, hhead, if_neg (by decide),
    shortest_readId_of_avoids (by decide) (by decide), List.append_nil]

/-- What goes on in front of the written text does not go on inside it: the tag is no word. -/
lemma any_isWord_head?_reverse (x : List Char) :
    ((Escape.escapeChars x).reverse ++ sourcePart.reverse).head?.any Letter.isWord =
      x.getLast?.any Letter.isWord := by
  have hpart : sourcePart.reverse.head? = some '"' := by decide
  rw [List.head?_append, List.head?_reverse, ← Escape.isWord_getLast?_escapeChars x, hpart]
  cases (Escape.escapeChars x).getLast? with
  | none => decide
  | some c => rfl

/-- A text that does not look like an id leaves the id of the group to be read. -/
lemma start_groupIdAttribute_of_not_endsLikeId {text : String} (htext : ¬ EndsLikeId text)
    {id : List Char} (hquote : '"' ∉ id) (hne : id ≠ []) (rest : List Char) :
    groupIdAttribute.start (beforeSource.toList ++ (Escape.escapeChars text.toList ++
      (beforeId.toList ++ (id ++ '"' :: rest)))) = some (String.ofList id, rest) := by
  rw [start_groupIdAttribute_beforeSource, toList_beforeId, Scan.shortest_append, List.append_assoc,
    shortest_readId_of_avoids (by decide) (by decide)]
  · apply Scan.shortest_of_some
    have hblank : (' ' :: '"' :: ((Escape.escapeChars text.toList).reverse ++
        sourcePart.reverse)).head?.any Letter.isWord = false := by
      rw [List.head?_cons]
      decide
    simpa using readId_of_name hblank hquote hne rest
  · exact Chars.all_ne_of_not_mem (Escape.gt_not_mem_escapeChars _)
  · intro a b hab hb
    by_cases hname : b = idName
    · -- the text ends with the name of an id, so a word must go on there
      subst hname
      obtain ⟨x, hx, rfl⟩ := Escape.escapeChars_eq_append (by decide) hab
      have hword : x.getLast?.any Letter.isWord = true := by
        cases hlast : x.getLast?.any Letter.isWord with
        | true => rfl
        | false => exact absurd ⟨x, hx, hlast⟩ htext
      rw [readId, any_isWord_head?_reverse, if_pos hword]
    · have hquote : '"' ∉ b := fun h =>
        Escape.quote_not_mem_escapeChars text.toList (hab ▸ List.mem_append_right a h)
      simpa using readId_of_ne hquote hname _ _

/-- A text that looks like an id hides the id of the group. -/
lemma start_groupIdAttribute_of_endsLikeId {text : String} (htext : EndsLikeId text)
    (s : List Char) :
    ∃ rest, groupIdAttribute.start (beforeSource.toList ++ (Escape.escapeChars text.toList ++
      (beforeId.toList ++ s))) = some (" id=", rest) := by
  obtain ⟨x, hx, hword⟩ := htext
  have hsplit : Escape.escapeChars text.toList = Escape.escapeChars x ++ idName := by
    rw [hx, Escape.escapeChars_append]
    rfl
  refine ⟨s, ?_⟩
  rw [start_groupIdAttribute_beforeSource, toList_beforeId, hsplit, List.append_assoc,
    Scan.shortest_append]
  · apply Scan.shortest_of_some
    have hid : " id=" = String.ofList (' ' :: idName) := by decide
    rw [hid]
    simpa using readId_of_name (v := ' ' :: idName) (by rw [any_isWord_head?_reverse, hword])
      (by decide) (by decide) s
  · exact Chars.all_ne_of_not_mem (Escape.gt_not_mem_escapeChars _)
  · intro a b hab hb
    have hquote : '"' ∉ b ++ idName := by
      rw [List.mem_append, not_or]
      exact ⟨fun h => Escape.quote_not_mem_escapeChars x (hab ▸ List.mem_append_right a h),
        by decide⟩
    have hname : b ++ idName ≠ idName := fun h => hb (List.append_left_eq_self.1 h)
    simpa using readId_of_ne hquote hname _ _

/-- In front of a group no tag looks like one of a group. -/
lemma failsOn_groupIdAttribute_head (inDocument : Bool) (name : String) (s : List Char) :
    groupIdAttribute.FailsOn (head inDocument name).toList s := by
  have hstart : ∀ t, Chars.after? "<UserObject".toList t = none →
      groupIdAttribute.start t = none := by
    intro t ht
    rw [start_groupIdAttribute, ht]
    rfl
  cases inDocument with
  | false => exact Scan.FailsOn.nil _ _
  | true =>
    simp only [head, reduceIte, escape, String.toList_append, String.toList_ofList]
    refine Scan.FailsOn.append (Scan.FailsOn.append ?_ ?_) ?_
    · exact Scan.failsOn_of_avoids hstart (by decide_cbv) _
    · refine Scan.failsOn_of_avoids hstart ?_ _
      exact Chars.avoids_of_not_mem (Escape.lt_not_mem_escapeChars name.toList)
    · exact Scan.failsOn_of_avoids hstart (by decide_cbv) _

end Document

namespace Registry

/-- The id that is found in a drawing: that of its group, unless the text looks like one. -/
lemma groupId?_convert {r : Registry} {text : String} {o : ConversionOptions} {c : Conversion}
    (hgroup : o.inGroup = true) (h : r.convert text o = .ok c) :
    (EndsLikeId text → Document.groupId? c.xml = some " id=") ∧
      (¬ EndsLikeId text → Document.groupId? c.xml = some o.group) := by
  obtain ⟨rest, hxml⟩ := toList_xml_of_convert hgroup h
  unfold Document.groupId?
  rw [hxml, Scan.search_append (Document.failsOn_groupIdAttribute_head _ _ _)]
  constructor
  · intro htext
    obtain ⟨rest', hstart⟩ := Document.start_groupIdAttribute_of_endsLikeId htext
      (Escape.escapeChars o.group.toList ++ '"' :: rest)
    rw [Scan.search_of_start hstart]
    exact congrArg some (by decide : unescape " id=" = " id=")
  · intro htext
    have hne : Escape.escapeChars o.group.toList ≠ [] := by
      rw [ne_eq, Escape.escapeChars_eq_nil_iff]
      simpa using o.group_ne_empty
    have hstart := Document.start_groupIdAttribute_of_not_endsLikeId htext
      (Escape.quote_not_mem_escapeChars o.group.toList) hne rest
    rw [Scan.search_of_start hstart]
    simp [unescape, Escape.unescapeChars_escapeChars]

/-- The frame of a document belongs to no dialect. -/
lemma convert_framePart (o : ConversionOptions) (c : Conversion) :
    standard.convert framePart o ≠ .ok c := by
  intro h
  obtain ⟨handler, -, -, hdetect, -⟩ := convert_eq_ok h
  have hnone : (standard.detect? framePart).toOption.any Option.isNone = true := by
    decide +kernel
  rw [hdetect] at hnone
  exact absurd hnone (by simp [Except.toOption])

/-- The id of a group shows in the drawing. -/
lemma group_eq_of_xml_eq {r : Registry} {text : String} {o : ConversionOptions}
    {id : Option String} {c c' : Conversion} (hgroup : o.inGroup = true)
    (h : r.convert text o = .ok c) (h' : r.convert text { o with groupId := id } = .ok c')
    (hxml : c'.xml = c.xml) : ({ o with groupId := id } : ConversionOptions).group = o.group := by
  obtain ⟨rest, hc⟩ := toList_xml_of_convert hgroup h
  obtain ⟨rest', hc'⟩ := toList_xml_of_convert (o := { o with groupId := id }) hgroup h'
  rw [hxml, hc] at hc'
  have hids := List.append_cancel_left (List.append_cancel_left (List.append_cancel_left
    (List.append_cancel_left hc')))
  have hmem := Escape.quote_not_mem_escapeChars
  have hid := Chars.eq_of_append_stop (hmem _) (hmem _) hids
  exact (String.toList_injective (Escape.escapeChars_injective hid)).symm

/-- Drawing again is converting the carried text, in the group that is found in the drawing. -/
lemma regenerate_of_source? {r : Registry} {xml text : String} (o : ConversionOptions)
    (h : Document.source? xml = some text) :
    r.regenerate xml none { o with groupId := none } =
      r.convert text { o with groupId := Document.groupId? xml } := by
  unfold regenerate
  rw [h]
  rfl

/-- Drawing a text again that looks like an id gives the same drawing only in the group of that
id. -/
lemma group_eq_of_endsLikeId {text : String} {o : ConversionOptions} {c c' : Conversion}
    (hgroup : o.inGroup = true) (htext : EndsLikeId text)
    (hsource : Document.source? c.xml = some text) (h : standard.convert text o = .ok c)
    (hc' : standard.regenerate c.xml none { o with groupId := none } = .ok c')
    (hxml : c'.xml = c.xml) : o.group = " id=" := by
  rw [regenerate_of_source? o hsource, (groupId?_convert hgroup h).1 htext] at hc'
  rw [← group_eq_of_xml_eq hgroup h hc' hxml]
  exact ConversionOptions.group_of_groupId rfl (by decide)

/-- Drawing a drawing again gives the same drawing, and its group keeps its id, unless the name of
the page looks like the attribute of a text or the text looks like the attribute of an id. -/
theorem regenerate_convert_iff {text g : String} {o : ConversionOptions} {c : Conversion}
    (hgroup : o.inGroup = true) (hid : o.groupId = some g) (hg : g ≠ "")
    (h : standard.convert text o = .ok c) :
    ((∃ c', standard.regenerate c.xml none { o with groupId := none } = .ok c' ∧ c'.xml = c.xml) ↔
      ¬ (o.inDocument = true ∧ "plantUml=".toList <:+ o.name.toList) ∧
        (EndsLikeId text → g = " id=")) ∧
      (Document.groupId? c.xml = some g ↔ (EndsLikeId text → g = " id=")) := by
  have hsame : ({ o with groupId := some g } : ConversionOptions) = o := by
    rw [← hid]
  have hog : o.group = g := ConversionOptions.group_of_groupId hid hg
  obtain ⟨hlike, hunlike⟩ := groupId?_convert hgroup h
  rw [hog] at hunlike
  have hkeeps : Document.groupId? c.xml = some g ↔ (EndsLikeId text → g = " id=") := by
    constructor
    · intro hfound htext
      exact Option.some.inj (hfound.symm.trans (hlike htext))
    · intro hkept
      by_cases htext : EndsLikeId text
      · rw [hlike htext, hkept htext]
      · exact hunlike htext
  refine ⟨⟨?_, ?_⟩, hkeeps⟩
  · rintro ⟨c', hc', hxml⟩
    by_cases hname : o.inDocument = true ∧ Document.sourceName <:+ o.name.toList
    · -- a part of the frame is found for the text, and no dialect knows it
      rw [regenerate_of_source? o (source?_convert_of_suffix hgroup hname.1 hname.2 h)] at hc'
      exact absurd hc' (convert_framePart _ _)
    · refine ⟨hname, fun htext => ?_⟩
      have hsource := source?_of_convert hgroup (fun hd hn => hname ⟨hd, hn⟩) h
      -- the id that is found shows in the new drawing, so it is the old one
      rw [← hog]
      exact group_eq_of_endsLikeId hgroup htext hsource h hc' hxml
  · rintro ⟨hname, hkept⟩
    have hsource := source?_of_convert hgroup (fun hd hn => hname ⟨hd, hn⟩) h
    refine ⟨c, ?_, rfl⟩
    rw [regenerate_of_source? o hsource, hkeeps.2 hkept, hsame, h]

/-- A text with something like an id in its middle is drawn again in its own group. -/
theorem regenerate_convert_lookalike :
    ∃ c, standard.convert lookalike { name := "\">", groupId := some "&g" } = .ok c ∧
      ∃ c', standard.regenerate c.xml none { name := "\">" } = .ok c' ∧ c'.xml = c.xml := by
  obtain ⟨c, hc⟩ := exists_convert_lookalike
  refine ⟨c, hc, (regenerate_convert_iff rfl rfl (by decide) hc).1.2 ⟨by decide, ?_⟩⟩
  rintro ⟨x, hx, -⟩
  have hlast := congrArg List.getLast? hx
  simp [lookalike] at hlast

/-- A text that ends like an id is not drawn again in its own group. -/
theorem regenerate_convert_loses_id :
    ∃ c, standard.convert "[*] --> a : id=" { groupId := some "g" } = .ok c ∧
      Document.groupId? c.xml = some " id=" ∧
      ¬ ∃ c', standard.regenerate c.xml none {} = .ok c' ∧ c'.xml = c.xml := by
  obtain ⟨c, hc⟩ := Fault.exists_of_isOk (by decide +kernel :
    (standard.convert "[*] --> a : id=" { groupId := some "g" }).isOk = true)
  have htext : EndsLikeId "[*] --> a : id=" := ⟨"[*] --> a : ".toList, by decide, by decide⟩
  have hsource := source?_of_convert rfl (fun _ => by decide_cbv) hc
  refine ⟨c, hc, (groupId?_convert rfl hc).1 htext, ?_⟩
  rintro ⟨c', hc', hxml⟩
  exact absurd (group_eq_of_endsLikeId rfl htext hsource hc hc' hxml) (by decide)

end Registry
end UmlDraw
