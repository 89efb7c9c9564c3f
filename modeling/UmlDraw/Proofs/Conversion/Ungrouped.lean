/-
# Drawings without a group

A drawing without a group does not carry its text.  But the attribute of a diagram text is looked for
by its name and an opening quotation mark, and the closing quotation mark of another attribute is
taken for one, if the value of that attribute ends with the name and an equality sign.  The values
that a text decides about are the labels of cells, and the name of the page.

The main statements are

* `Document.Values.source?_eq_none_iff`: in which marked up texts no diagram text is found;
* `Registry.hides_renderAll`: the values in the elements of cells;
* `Registry.source?_convert_ungrouped_iff`: in which drawings without a group none is found.
-/
import UmlDraw.Proofs.Conversion.Source
import UmlDraw.Proofs.Drawing.Dialect
import UmlDraw.Proofs.Markup.WellFormed

namespace UmlDraw
namespace Document

/-! ### Values between quotation marks -/

/-- The text ends with the name of the attribute for a diagram text and an equality sign. -/
def EndsLikeSource (s : String) : Prop :=
  sourceName <:+ s.toList

instance (s : String) : Decidable (EndsLikeSource s) :=
  inferInstanceAs (Decidable (sourceName <:+ s.toList))

lemma not_endsLikeSource_of_not_mem {s : String} (h : '=' ∉ s.toList) : ¬ EndsLikeSource s :=
  fun hs => h (hs.subset (by decide))

/-- What stands in front of a value has no quotation mark, and it does not end like the attribute for
a diagram text, whatever stands before it. -/
structure IsFront (gap : List Char) : Prop where
  quote : '"' ∉ gap
  name : Chars.clashes sourceName.reverse gap.reverse = true

instance (gap : List Char) : Decidable (IsFront gap) :=
  decidable_of_iff ('"' ∉ gap ∧ Chars.clashes sourceName.reverse gap.reverse = true)
    ⟨fun h => ⟨h.1, h.2⟩, fun h => ⟨h.quote, h.name⟩⟩

/-- The text holds the written forms of the given values, each in quotation marks.  Behind a value
that ends like the attribute for a diagram text there is a further one. -/
inductive Values : List Char → List String → Prop
  | nil {gap : List Char} (h : '"' ∉ gap) : Values gap []
  | cons {gap s : List Char} {v : String} {vs : List String} (hgap : IsFront gap)
    (hlast : vs = [] → ¬ EndsLikeSource v) (hs : Values s vs) :
    Values (gap ++ '"' :: (Escape.escapeChars v.toList ++ '"' :: s)) (v :: vs)

end Document

lemma Chars.clashes_append {a x : List Char} (h : clashes a x = true) (y : List Char) :
    clashes a (x ++ y) = true := by
  induction a generalizing x with
  | nil => exact absurd h (by simp [clashes])
  | cons b a ih =>
    cases x with
    | nil => exact absurd h (by simp [clashes])
    | cons c x =>
      rw [clashes, Bool.or_eq_true] at h
      rw [List.cons_append, clashes, Bool.or_eq_true]
      exact h.imp_right ih

namespace Document

variable {gap s t : List Char} {v : String} {vs ws : List String}

lemma IsFront.ne_nil (h : IsFront gap) : gap ≠ [] := by
  rintro rfl
  exact absurd h.name (by decide)

lemma IsFront.append_left (h : IsFront gap) {x : List Char} (hx : '"' ∉ x) :
    IsFront (x ++ gap) where
  quote := by
    rw [List.mem_append, not_or]
    exact ⟨hx, h.quote⟩
  name := by
    rw [List.reverse_append]
    exact Chars.clashes_append h.name _

lemma IsFront.not_suffix (h : IsFront gap) : ¬ sourceName <:+ gap := by
  rintro ⟨x, hx⟩
  have hclash := Chars.after?_of_clashes h.name []
  rw [← hx, List.reverse_append, List.append_nil, Chars.after?_append] at hclash
  cases hclash

namespace Values

lemma append (h : Values s vs) (h' : Values t ws) : Values (s ++ t) (vs ++ ws) := by
  induction h with
  | nil hgap =>
    cases h' with
    | nil hgap' =>
      refine .nil ?_
      rw [List.mem_append, not_or]
      exact ⟨hgap, hgap'⟩
    | cons hgap' hlast hs =>
      rw [← List.append_assoc]
      exact .cons (hgap'.append_left hgap) hlast hs
  | cons hgap hlast _ ih =>
    simp only [List.append_assoc, List.cons_append] at ih ⊢
    exact .cons hgap (fun hvs => hlast (List.append_eq_nil_iff.1 hvs).1) ih

/-- In a text without quotation marks nothing is found. -/
lemma search_of_not_mem (h : '"' ∉ s) : sourceAttribute.search s = none := by
  have hstart : ∀ b, b <:+ s → sourceAttribute.start b = none := by
    intro b hb
    refine start_sourceAttribute_of_after?_eq_none (Option.eq_none_iff_forall_not_mem.2 ?_)
    intro rest hrest
    have hb' := hb.subset
    rw [Chars.after?_eq_some_iff.1 hrest] at hb'
    exact h (hb' (by simp))
  have hfails : sourceAttribute.FailsOn s [] := by
    rintro a b rfl -
    rw [List.append_nil]
    exact hstart b (List.suffix_append a b)
  have hsearch := Scan.search_append hfails
  rw [List.append_nil] at hsearch
  rw [hsearch, Scan.search, hstart [] (List.nil_suffix)]
  rfl

/-- In front of a quotation mark, nothing is found in a part that does not end like the attribute. -/
lemma failsOn_of_not_suffix {x : List Char} (hquote : '"' ∉ x) (hname : ¬ sourceName <:+ x)
    (s : List Char) : sourceAttribute.FailsOn (x ++ ['"']) s := by
  refine Scan.FailsOn.append ?_ (failsOn_sourceAttribute_of_avoids (by decide) _)
  refine failsOn_sourceAttribute (z := []) (by rwa [List.append_nil]) (fun b hb _ heq => ?_) _
  rw [List.append_nil] at heq
  exact hname (heq ▸ hb)

lemma quote_not_mem (v : String) : '"' ∉ Escape.escapeChars v.toList :=
  Escape.quote_not_mem_escapeChars _

/-- Nothing is found in front of a value and in the value, unless the value ends like the
attribute. -/
lemma search_cons (hgap : IsFront gap) (hv : ¬ EndsLikeSource v) :
    sourceAttribute.search (gap ++ '"' :: (Escape.escapeChars v.toList ++ '"' :: s)) =
      (sourceAttribute.search s).map fun r =>
        (gap ++ ['"'] ++ (Escape.escapeChars v.toList ++ ['"']) ++ r.1, r.2) := by
  have hsuffix : ¬ sourceName <:+ Escape.escapeChars v.toList := by
    rwa [Escape.suffix_escapeChars_iff (by decide)]
  have hfront := failsOn_of_not_suffix hgap.quote hgap.not_suffix
    (Escape.escapeChars v.toList ++ ['"'] ++ s)
  have hvalue := failsOn_of_not_suffix (quote_not_mem v) hsuffix s
  have hsearch := Scan.search_append (hfront.append hvalue)
  simpa only [List.append_assoc, List.cons_append, List.nil_append] using hsearch

/-- A value that ends like the attribute: what is found stands behind it, in front of the next
value. -/
lemma search_cons_of_ends (hgap : IsFront gap) (hv : EndsLikeSource v) (hs : Values s vs)
    (hvs : vs ≠ []) : ∃ r,
      sourceAttribute.search (gap ++ '"' :: (Escape.escapeChars v.toList ++ '"' :: s)) = some r ∧
        r.2.1 ≠ "" := by
  obtain ⟨y, hy⟩ := (Escape.suffix_escapeChars_iff (by decide)).2 hv
  cases hs with
  | nil _ => exact absurd rfl hvs
  | @cons gap' s' v' _ hgap' hlast hs =>
    have hquote : '"' ∉ y ++ sourceName := hy ▸ quote_not_mem v
    have hfront := failsOn_of_not_suffix hgap.quote hgap.not_suffix
      (y ++ (sourceName ++ '"' :: (gap' ++ '"' :: (Escape.escapeChars v'.toList ++ '"' :: s'))))
    have hvalue : sourceAttribute.FailsOn y
        (sourceName ++ '"' :: (gap' ++ '"' :: (Escape.escapeChars v'.toList ++ '"' :: s'))) :=
      failsOn_sourceAttribute hquote
        (fun b _ hb hname => hb (List.append_left_eq_self.1 hname)) _
    have hfound := Scan.search_append (hfront.append hvalue)
    rw [Scan.search_of_start (start_sourceAttribute_append hgap'.quote _)] at hfound
    simp only [Option.map_some, List.append_nil] at hfound
    refine ⟨(gap ++ ['"'] ++ y, String.ofList gap', Escape.escapeChars v'.toList ++ '"' :: s'),
      ?_, ?_⟩
    · rw [← hy]
      simpa only [List.append_assoc, List.cons_append, List.nil_append] using hfound
    · intro hempty
      refine hgap'.ne_nil ?_
      simpa using congrArg String.toList hempty

lemma search_eq_none (h : Values s vs) (hvs : ∀ v ∈ vs, ¬ EndsLikeSource v) :
    sourceAttribute.search s = none := by
  induction h with
  | nil hgap => exact search_of_not_mem hgap
  | cons hgap _ _ ih =>
    obtain ⟨hv, hvs⟩ := List.forall_mem_cons.1 hvs
    rw [search_cons hgap hv, ih hvs]
    rfl

lemma exists_search_eq_some (h : Values s vs) (hvs : ∃ v ∈ vs, EndsLikeSource v) :
    ∃ r, sourceAttribute.search s = some r ∧ r.2.1 ≠ "" := by
  induction h with
  | nil _ =>
    obtain ⟨v, hv, -⟩ := hvs
    cases hv
  | @cons gap s v vs hgap hlast hs ih =>
    by_cases hv : EndsLikeSource v
    · exact search_cons_of_ends hgap hv hs fun hnil => hlast hnil hv
    · obtain ⟨v', hmem, hv'⟩ := hvs
      obtain ⟨r, hr, hne⟩ := ih (by
        rcases List.mem_cons.1 hmem with rfl | hmem
        · exact absurd hv' hv
        · exact ⟨v', hmem, hv'⟩)
      refine ⟨(gap ++ ['"'] ++ (Escape.escapeChars v.toList ++ ['"']) ++ r.1, r.2), ?_, hne⟩
      rw [search_cons hgap hv, hr, Option.map_some]

/-- A diagram text is found if and only if one of the values ends like its attribute. -/
theorem source?_eq_none_iff {xml : String} (h : Values xml.toList vs) :
    source? xml = none ↔ ∀ v ∈ vs, ¬ EndsLikeSource v := by
  constructor
  · intro hsource
    by_contra hvs
    push Not at hvs
    obtain ⟨⟨before, written, rest⟩, hr, hne⟩ := h.exists_search_eq_some hvs
    have hempty : written.isEmpty = false := by simpa using hne
    unfold source? at hsource
    rw [hr] at hsource
    simp [hempty] at hsource
  · intro hvs
    unfold source?
    rw [h.search_eq_none hvs]

/-! ### Elements -/

variable {ps : List (String × String)} {name : String}

/-- The names of attributes are none that a diagram text is found by. -/
def AreOther (names : List String) : Prop :=
  ∀ name ∈ names, IsFront (' ' :: (name.toList ++ ['=']))

instance (names : List String) : Decidable (AreOther names) :=
  inferInstanceAs (Decidable (∀ name ∈ names, IsFront (' ' :: (name.toList ++ ['=']))))

lemma AreOther.of_sublist {names names' : List String} (h : names.Sublist names')
    (h' : AreOther names') : AreOther names :=
  fun name hname => h' name (h.subset hname)

lemma writeAttributes (hs : Values s vs) (hnames : AreOther (ps.map Prod.fst))
    (hlast : vs = [] → ∀ p ∈ ps, ¬ EndsLikeSource p.2) :
    Values (Tag.writeAttributes ps ++ s) (ps.map Prod.snd ++ vs) := by
  induction ps with
  | nil => exact hs
  | cons p ps ih =>
    obtain ⟨hp, hnames⟩ := List.forall_mem_cons.1 hnames
    have hrest := ih hnames fun hvs => (List.forall_mem_cons.1 (hlast hvs)).2
    have hvalue := Values.cons hp (fun hvs =>
      (List.forall_mem_cons.1 (hlast (List.append_eq_nil_iff.1 hvs).2)).1) hrest
    rw [Tag.writeAttributes, List.flatMap_cons, ← Tag.writeAttributes, Tag.writeAttribute]
    simpa only [List.append_assoc, List.cons_append, List.nil_append, List.map_cons] using hvalue

/-- The start of a tag stands in front of what follows. -/
lemma opening (hs : Values s vs) (hname : '"' ∉ '<' :: name.toList) (hnames : AreOther (ps.map Prod.fst))
    (hlast : vs = [] → ∀ p ∈ ps, ¬ EndsLikeSource p.2) :
    Values (Xml.opening name ps ++ s) (ps.map Prod.snd ++ vs) := by
  have hopening := (Values.nil hname).append (hs.writeAttributes hnames hlast)
  simpa only [Xml.opening, List.append_assoc, List.cons_append, List.nil_append] using hopening

lemma single (hname : '"' ∉ '<' :: name.toList) (hnames : AreOther (ps.map Prod.fst))
    (hps : ∀ p ∈ ps, ¬ EndsLikeSource p.2) : Values (Xml.single name ps) (ps.map Prod.snd) := by
  have hend : Values ['/', '>'] [] := .nil (by decide)
  have hsingle := hend.opening hname hnames fun _ => hps
  rwa [List.append_nil] at hsingle

lemma around (hs : Values s vs) (hname : '"' ∉ '<' :: name.toList) (hnames : AreOther (ps.map Prod.fst))
    (hlast : vs = [] → ∀ p ∈ ps, ¬ EndsLikeSource p.2) :
    Values (Xml.around name ps s) (ps.map Prod.snd ++ vs) := by
  have hstart : Values ['>'] [] := .nil (by decide)
  have hend : Values ('<' :: '/' :: (name.toList ++ ['>'])) [] := by
    refine .nil fun hmem => hname ?_
    simpa using hmem
  have hcontent := (hstart.append hs).append hend
  rw [List.nil_append, List.append_nil] at hcontent
  have haround := hcontent.opening hname hnames hlast
  simpa only [Xml.around, List.append_assoc, List.cons_append, List.nil_append] using haround

/-- An element without attributes. -/
lemma around_bare (hs : Values s vs) (hname : '"' ∉ '<' :: name.toList) :
    Values (Xml.around name [] s) vs :=
  hs.around hname (List.forall_mem_nil _) fun _ => List.forall_mem_nil _

/-- Blanks and line breaks around a text. -/
lemma framed (hs : Values s vs) {before after : List Char} (hbefore : '"' ∉ before)
    (hafter : '"' ∉ after) : Values (before ++ s ++ after) vs := by
  have hframed := ((Values.nil hbefore).append hs).append (Values.nil hafter)
  rwa [List.nil_append, List.append_nil] at hframed

end Values

/-- Of the values in a text none ends like the attribute for a diagram text if and only if the
proposition holds. -/
def Hides (s : List Char) (P : Prop) : Prop :=
  ∃ vs, Values s vs ∧ ((∀ v ∈ vs, ¬ EndsLikeSource v) ↔ P)

variable {P Q : Prop}

lemma Values.hides (h : Values s vs) (hvs : ∀ v ∈ vs, ¬ EndsLikeSource v) : Hides s True :=
  ⟨vs, h, iff_true_intro hvs⟩

namespace Hides

lemma of_not_mem (h : '"' ∉ s) : Hides s True :=
  (Values.nil h).hides (List.forall_mem_nil _)

lemma append (h : Hides s P) (h' : Hides t Q) : Hides (s ++ t) (P ∧ Q) := by
  obtain ⟨vs, hvs, hP⟩ := h
  obtain ⟨ws, hws, hQ⟩ := h'
  exact ⟨vs ++ ws, hvs.append hws, by rw [List.forall_mem_append, hP, hQ]⟩

lemma imp (h : Hides s P) (hPQ : P ↔ Q) : Hides s Q := by
  obtain ⟨vs, hvs, hP⟩ := h
  exact ⟨vs, hvs, hP.trans hPQ⟩

lemma join {α : Type} {sep : String} (hsep : '"' ∉ sep.toList) {f : α → String} {P : α → Prop}
    {l : List α} (h : ∀ a ∈ l, Hides (f a).toList (P a)) :
    Hides (Text.join sep (l.map f)).toList (∀ a ∈ l, P a) := by
  rw [Text.join, String.toList_intercalate]
  induction l with
  | nil => exact (of_not_mem List.not_mem_nil).imp (by simp)
  | cons a l ih =>
    obtain ⟨ha, hl⟩ := List.forall_mem_cons.1 h
    cases l with
    | nil => simpa using ha
    | cons b l =>
      have hrest := ha.append ((of_not_mem hsep).append (ih hl))
      rw [true_and] at hrest
      exact hrest.imp List.forall_mem_cons.symm

variable {ps : List (String × String)} {name : String}

lemma single (hname : '"' ∉ '<' :: name.toList) (hnames : Values.AreOther (ps.map Prod.fst))
    (hps : ∀ p ∈ ps, ¬ EndsLikeSource p.2) : Hides (Xml.single name ps) True :=
  (Values.single hname hnames hps).hides (List.forall_mem_map.2 hps)

lemma around (h : Hides s P) (hname : '"' ∉ '<' :: name.toList)
    (hnames : Values.AreOther (ps.map Prod.fst)) (hps : ∀ p ∈ ps, ¬ EndsLikeSource p.2) :
    Hides (Xml.around name ps s) P := by
  obtain ⟨vs, hvs, hP⟩ := h
  refine ⟨_, hvs.around hname hnames fun _ => hps, ?_⟩
  rw [List.forall_mem_append, List.forall_mem_map, hP]
  exact and_iff_right hps

lemma framed (h : Hides s P) {before after : List Char} (hbefore : '"' ∉ before)
    (hafter : '"' ∉ after) : Hides (before ++ s ++ after) P := by
  obtain ⟨vs, hvs, hP⟩ := h
  exact ⟨vs, hvs.framed hbefore hafter, hP⟩

/-- Blanks in front of a text. -/
lemma indented (h : Hides s P) {before : List Char} (hbefore : '"' ∉ before) :
    Hides (before ++ s) P := by
  have hframed := h.framed hbefore (List.not_mem_nil (a := '"'))
  rwa [List.append_nil] at hframed

end Hides
end Document

open Document (EndsLikeSource Values Hides not_endsLikeSource_of_not_mem)
open Document.Values (AreOther)

/-! ### Places -/

lemma Number.not_endsLikeSource (n : Number) : ¬ EndsLikeSource n.text := by
  refine not_endsLikeSource_of_not_mem fun hmem => ?_
  rw [Number.text, String.toList_ofList] at hmem
  exact absurd (n.numeric_chars _ hmem) (by decide)

namespace Geometry

lemma hides_pointElement (p : Point) {role : Option String} (hrole : ∀ s ∈ role, ¬ EndsLikeSource s)
    {before : String} (hbefore : '"' ∉ before.toList) :
    Hides (before ++ pointElement p (roleText role)).toList True := by
  have hvalues : ∀ q ∈ pointPairs p role, ¬ EndsLikeSource q.2 := by
    simpa [pointPairs, Number.not_endsLikeSource] using hrole
  rw [String.toList_append, toList_pointElement]
  exact (Hides.single (by decide) (.of_sublist (names_pointPairs p role) (by decide))
    hvalues).indented hbefore

lemma hides_edgeParts (g : Geometry) : ∀ part ∈ g.edgeParts, Hides part.toList True := by
  intro part hpart
  rcases cases_of_mem_edgeParts hpart with ⟨p, role, hrole, rfl⟩ | rfl
  · have hroles : ∀ role ∈ ["sourcePoint", "targetPoint"], ¬ EndsLikeSource role := by decide
    exact hides_pointElement p (fun s hs => Option.some.inj hs ▸ hroles role hrole) (by decide)
  · have hpoints : Hides (Text.join "\n"
        (g.points.map fun p => "      " ++ pointElement p (roleText none))).toList
          (∀ p ∈ g.points, True) :=
      Hides.join (by decide) fun p _ => hides_pointElement p (by decide) (by decide)
    rw [toList_points]
    refine Hides.indented (Hides.around (Hides.framed ?_ (by decide) (by decide)) (by decide)
      (by decide) (by decide)) (by decide)
    exact hpoints.imp (iff_true_intro fun _ _ => trivial)

/-- No value in the place of a cell ends like the attribute for a diagram text. -/
lemma hides_render (g : Geometry) (isEdge : Bool) : Hides (g.render isEdge).toList True := by
  cases isEdge with
  | false =>
    have hsides : ∀ p ∈ g.sidePairs, ¬ EndsLikeSource p.2 := by
      have hfixed : ¬ EndsLikeSource "1" ∧ ¬ EndsLikeSource "geometry" := by decide
      unfold sidePairs
      split
      · simpa [Number.not_endsLikeSource] using hfixed
      · simpa [Number.not_endsLikeSource] using hfixed.2
    rw [toList_render_sides]
    exact (Hides.single (by decide) (.of_sublist g.names_sidePairs (by decide))
      hsides).indented (by decide)
  | true =>
    by_cases hparts : g.edgeParts = []
    · rw [toList_render_empty hparts]
      exact (Hides.single (by decide) (by decide) (by decide)).indented (by decide)
    · have hjoin : Hides (Text.join "\n" (g.edgeParts.map id)).toList (∀ part ∈ g.edgeParts, True) :=
        Hides.join (by decide) g.hides_edgeParts
      rw [List.map_id] at hjoin
      rw [toList_render_parts hparts]
      refine Hides.indented (Hides.around (Hides.framed ?_ (by decide) (by decide)) (by decide)
        (by decide) (by decide)) (by decide)
      exact hjoin.imp (iff_true_intro fun _ _ => trivial)

end Geometry

/-! ### Cells -/

namespace Cell

/-- Apart from the label, no text of the cell ends like the attribute for a diagram text, and the cell
around it has an id. -/
structure IsQuiet (c : Cell) : Prop where
  id : ¬ EndsLikeSource c.id
  style : ¬ EndsLikeSource c.style
  parent : ¬ EndsLikeSource c.parent
  parent_ne : c.parent ≠ ""
  source : ¬ EndsLikeSource (c.source.getD "")
  target : ¬ EndsLikeSource (c.target.getD "")

/-- The attributes up to the label. -/
def frontPairs (c : Cell) : List (String × String) :=
  [("id", c.id)] ++ filledPair "value" c.value

/-- The attributes behind the label. -/
def backPairs (c : Cell) : List (String × String) :=
  filledPair "style" c.style ++ (if c.vertex then [("vertex", "1")] else []) ++
  (if c.edge then [("edge", "1")] else []) ++ filledPair "parent" c.parent ++
  filledPair "source" (c.source.getD "") ++ filledPair "target" (c.target.getD "")

lemma pairs_eq (c : Cell) : c.pairs = c.frontPairs ++ c.backPairs := by
  simp only [pairs, frontPairs, backPairs, List.append_assoc]

lemma forall_filledPair {name value : String} :
    (∀ p ∈ filledPair name value, ¬ EndsLikeSource p.2) ↔ ¬ EndsLikeSource value := by
  unfold filledPair
  split
  · next h =>
    rw [String.isEmpty_iff.1 h]
    decide
  · exact List.forall_mem_singleton

lemma IsQuiet.forall_backPairs {c : Cell} (h : c.IsQuiet) : ∀ p ∈ c.backPairs, ¬ EndsLikeSource p.2 := by
  have hflag : ∀ (b : Bool) name, ∀ p ∈ (if b then [(name, "1")] else [] : List (String × String)),
      ¬ EndsLikeSource p.2 := by
    intro b name
    split
    · exact List.forall_mem_singleton.2 (by decide : ¬ EndsLikeSource "1")
    · exact List.forall_mem_nil _
  simp only [backPairs, List.forall_mem_append]
  exact ⟨⟨⟨⟨⟨forall_filledPair.2 h.style, hflag _ _⟩, hflag _ _⟩, forall_filledPair.2 h.parent⟩,
    forall_filledPair.2 h.source⟩, forall_filledPair.2 h.target⟩

lemma backPairs_ne_nil {c : Cell} (h : c.parent ≠ "") : c.backPairs ≠ [] := by
  refine List.ne_nil_of_mem (a := ("parent", c.parent)) ?_
  have hparent : c.parent.isEmpty = false := by simpa using h
  simp [backPairs, filledPair, hparent]

/-- The attributes of a cell, in front of what follows in its element. -/
lemma hides_attributes {c : Cell} (h : c.IsQuiet) {s : List Char} (hs : Hides s True) :
    Hides (Xml.opening "mxCell" c.pairs ++ s) (¬ EndsLikeSource c.value) := by
  obtain ⟨vs, hvs, hquiet⟩ := hs
  have hnames : AreOther (c.frontPairs.map Prod.fst ++ c.backPairs.map Prod.fst) := by
    rw [← List.map_append, ← pairs_eq]
    exact .of_sublist c.names_pairs (by decide)
  have hback : Values (Tag.writeAttributes c.backPairs ++ s) (c.backPairs.map Prod.snd ++ vs) :=
    hvs.writeAttributes (fun name hname => hnames name (List.mem_append_right _ hname)) fun _ =>
      h.forall_backPairs
  -- the label is not the last value, since the id of the cell around follows
  have hfront : Values (Xml.opening "mxCell" c.frontPairs ++
      (Tag.writeAttributes c.backPairs ++ s))
      (c.frontPairs.map Prod.snd ++ (c.backPairs.map Prod.snd ++ vs)) :=
    hback.opening (by decide) (fun name hname => hnames name (List.mem_append_left _ hname))
      fun hnil => absurd (List.map_eq_nil_iff.1 (List.append_eq_nil_iff.1 hnil).1)
        (backPairs_ne_nil h.parent_ne)
  have hopening : Xml.opening "mxCell" c.pairs ++ s =
      Xml.opening "mxCell" c.frontPairs ++ (Tag.writeAttributes c.backPairs ++ s) := by
    simp [Xml.opening, Tag.writeAttributes, pairs_eq]
  have hid : ∀ p ∈ [("id", c.id)], ¬ EndsLikeSource p.2 := List.forall_mem_singleton.2 h.id
  rw [hopening]
  refine ⟨_, hfront, ?_⟩
  simp only [List.forall_mem_append, List.forall_mem_map, frontPairs, forall_filledPair, hquiet]
  exact ⟨fun hall => hall.1.2, fun hvalue => ⟨⟨hid, hvalue⟩, h.forall_backPairs, trivial⟩⟩

/-- In the element of a cell only the label may end like the attribute for a diagram text. -/
lemma IsQuiet.hides_render {c : Cell} (h : c.IsQuiet) :
    Hides c.render.toList (¬ EndsLikeSource c.value) := by
  rw [toList_render]
  cases c.geometry with
  | none => exact hides_attributes h (.of_not_mem (by decide))
  | some g =>
    have hplace := ((g.hides_render c.edge).framed (by decide : '"' ∉ "\n".toList)
      (by decide : '"' ∉ "\n".toList)).framed (by decide : '"' ∉ ['>'])
      (by decide : '"' ∉ '<' :: '/' :: ("mxCell".toList ++ ['>']))
    have hcell := hides_attributes h hplace
    simpa only [Xml.around, List.append_assoc, List.cons_append, List.nil_append] using hcell

end Cell
/-! ### Drawings -/

lemma Document.not_endsLikeSource_numberedId (n : Nat) : ¬ EndsLikeSource (numberedId "puml" n) := by
  have hdigits : '=' ∉ Decimal.digits n := by
    intro hmem
    exact absurd (Decimal.numeric_digits n _ hmem) (by decide)
  refine not_endsLikeSource_of_not_mem ?_
  rw [numberedId, String.toList_append, String.toList_append, String.toList_ofList]
  simpa using hdigits

/-- A written style is empty or ends with a semicolon. -/
lemma Style.not_endsLikeSource_render (st : Style) : ¬ EndsLikeSource st.render := by
  unfold render
  split
  · decide
  · intro h
    obtain ⟨y, hy⟩ : Document.sourceName <:+ _ := h
    have hname : Document.sourceName.getLast? = some '=' := by decide
    have hlast := congrArg List.getLast? hy
    rw [String.toList_append, List.getLast?_append, List.getLast?_append, hname] at hlast
    simp at hlast

/-- The ids in a drawing are numbered, so the labels are the only texts of its cells that may end
like the attribute for a diagram text. -/
lemma Cell.Connected.isQuiet {cells : List Cell} (h : Connected "1" cells) {c : Cell}
    (hc : c ∈ cells) {style : Style} (hstyle : c.style = style.render) : c.IsQuiet := by
  have hid : ∀ {id}, IsId cells id → ¬ EndsLikeSource id ∧ id ≠ "" := by
    intro id hid
    obtain ⟨n, -, rfl⟩ := List.mem_map.1 (h.ids.subset hid)
    refine ⟨Document.not_endsLikeSource_numberedId _, fun hempty => ?_⟩
    simpa [Document.numberedId] using congrArg String.toList hempty
  obtain ⟨hplace, hends⟩ := h.attached c hc
  have hparent : ¬ EndsLikeSource c.parent ∧ c.parent ≠ "" := by
    rcases hplace with hplace | hplace
    · rw [hplace]
      decide
    · exact hid hplace
  have hends : ¬ EndsLikeSource (c.source.getD "") ∧ ¬ EndsLikeSource (c.target.getD "") := by
    rcases hends with ⟨hsource, htarget⟩ | ⟨source, target, hsource, htarget, hs, ht⟩
    · rw [hsource, htarget]
      decide
    · rw [hsource, htarget]
      exact ⟨(hid hs.isId).1, (hid ht.isId).1⟩
  exact
    { id := (hid (List.mem_map_of_mem hc)).1
      style := hstyle ▸ style.not_endsLikeSource_render
      parent := hparent.1
      parent_ne := hparent.2
      source := hends.1
      target := hends.2 }

namespace Document

lemma values_outerCells : Values outerCells ["0", "1", "0"] := by
  have hfirst : Values (Xml.single "mxCell" [("id", "0")]) ["0"] :=
    Values.single (by decide) (by decide) (by decide)
  have hsecond : Values (Xml.single "mxCell" [("id", "1"), ("parent", "0")]) ["1", "0"] :=
    Values.single (by decide) (by decide) (by decide)
  have hblank : '"' ∉ '\n' :: "        ".toList := by decide
  have hbreak : '"' ∉ ['\n'] := by decide
  have hcells := ((Values.nil hblank).append hfirst).append (hsecond.framed hblank hbreak)
  simpa only [outerCells, List.append_assoc, List.cons_append, List.nil_append] using hcells

/-- In a document the name of the page and the values in its elements are the values of interest. -/
lemma hides_wrap {elements : String} {P : Prop} (h : Hides elements.toList P) (name : String) :
    Hides (wrap elements name).toList (¬ EndsLikeSource name ∧ P) := by
  obtain ⟨vs, hvs, hP⟩ := h
  have hroot : Values (rootContent elements) (["0", "1", "0"] ++ vs) := by
    have hcontent := values_outerCells.append (hvs.append (.nil (by decide : '"' ∉ '\n' :: "      ".toList)))
    rwa [List.append_nil] at hcontent
  have hmodel : Values (Xml.around "mxGraphModel" [] ("\n      ".toList ++
      Xml.around "root" [] (rootContent elements) ++ "\n    ".toList)) (["0", "1", "0"] ++ vs) :=
    ((hroot.around_bare (by decide)).framed (by decide) (by decide)).around_bare (by decide)
  have hname : Values.AreOther ([("name", name)].map Prod.fst) :=
    (by decide : Values.AreOther ["name"])
  have hpage := (hmodel.framed (by decide : '"' ∉ "\n    ".toList)
    (by decide : '"' ∉ "\n  ".toList)).around (by decide : '"' ∉ '<' :: "diagram".toList)
      hname nofun
  have hfile := (hpage.framed (by decide : '"' ∉ "\n  ".toList)
    (by decide : '"' ∉ "\n".toList)).around_bare (by decide : '"' ∉ '<' :: "mxfile".toList)
  rw [toList_wrap]
  refine ⟨_, hfile, ?_⟩
  have hfixed : ∀ v ∈ ["0", "1", "0"], ¬ EndsLikeSource v := by decide
  simp only [List.forall_mem_append, List.map_cons, List.map_nil, List.forall_mem_singleton, hP]
  exact and_congr_right fun _ => and_iff_right hfixed

end Document

namespace Registry

variable {text : String} {o : ConversionOptions} {c : Conversion}

/-- What a conversion without a group has gone through. -/
lemma exists_cells_of_convert (hgroup : o.inGroup = false) (h : standard.convert text o = .ok c) :
    ∃ (d : Dialect) (cells : List Cell), c.dialect = d.key ∧ d.draw text "1" = .ok cells ∧
      c.xml = if o.inDocument then Document.wrap (Cell.renderAll cells) o.name
        else Cell.renderAll cells := by
  obtain ⟨handler, cells, body, hdetect, hdraw, hbody, hxml⟩ := convert_eq_ok h
  obtain ⟨d, hkey, rfl⟩ := exists_dialect_of_detect? hdetect
  have hparent : o.parent = "1" := by rw [ConversionOptions.parent, hgroup, if_neg (by decide)]
  unfold grouped at hbody
  obtain ⟨elements, helements, hbody⟩ := Fault.bind_eq_ok_iff.1 hbody
  obtain ⟨-, rfl⟩ := Fault.check_eq_ok_iff.1 (Fault.mapError_eq_ok_iff.1 helements)
  rw [hgroup, if_neg (by decide)] at hbody
  obtain rfl := Except.ok.inj hbody
  exact ⟨d, cells, hkey, hparent ▸ hdraw, hxml⟩

/-- The values in a drawing without a group. -/
lemma hides_renderAll {d : Dialect} {cells : List Cell} (h : d.draw text "1" = .ok cells) :
    Hides (Cell.renderAll cells).toList (∀ cell ∈ cells, ¬ EndsLikeSource cell.value) := by
  have hdrawing := Dialect.drawing_of_draw h
  refine Hides.join (by decide) fun cell hcell => ?_
  obtain ⟨style, -, hstyle⟩ := hdrawing.isPainted cell hcell
  exact (hdrawing.connected.isQuiet hcell hstyle).hides_render

lemma source?_renderAll_eq_none_iff {d : Dialect} {cells : List Cell}
    (h : d.draw text "1" = .ok cells) : Document.source? (Cell.renderAll cells) = none ↔
      ∀ cell ∈ cells, ¬ EndsLikeSource cell.value := by
  obtain ⟨vs, hvs, hiff⟩ := hides_renderAll h
  rw [hvs.source?_eq_none_iff, hiff]

lemma writable_ne_sourceNotFound {n : Number} {place : String} :
    writable n ≠ .error (.sourceNotFound place) := by
  intro h
  unfold writable at h
  cases hfault : n.textFault? with
  | none =>
    rw [hfault] at h
    cases h
  | some e =>
    rw [hfault] at h
    cases h

lemma grouped_ne_sourceNotFound {cells : List Cell} {place : String} :
    grouped o text cells ≠ .error (.sourceNotFound place) := by
  intro h
  unfold grouped at h
  rcases Fault.bind_eq_error_iff.1 h with h | ⟨elements, -, h⟩
  · obtain ⟨_, -, h⟩ := Fault.mapError_eq_error_iff.1 h
    cases h
  · split at h
    · rcases Fault.bind_eq_error_iff.1 h with h | ⟨width, -, h⟩
      · exact writable_ne_sourceNotFound h
      · rcases Fault.bind_eq_error_iff.1 h with h | ⟨height, -, h⟩
        · exact writable_ne_sourceNotFound h
        · obtain ⟨_, -, h⟩ := Fault.mapError_eq_error_iff.1 h
          cases h
    · cases h

/-- A text that is given is not missed. -/
lemma convert_ne_sourceNotFound {r : Registry} {place : String} :
    r.convert text o ≠ .error (.sourceNotFound place) := by
  intro h
  unfold convert at h
  rcases Fault.bind_eq_error_iff.1 h with h | ⟨found, -, h⟩
  · obtain ⟨_, -, h⟩ := Fault.mapError_eq_error_iff.1 h
    cases h
  · cases found with
    | none => cases h
    | some found =>
      rcases Fault.bind_eq_error_iff.1 h with h | ⟨cells, -, h⟩
      · obtain ⟨_, -, h⟩ := Fault.mapError_eq_error_iff.1 h
        cases h
      · rcases Fault.bind_eq_error_iff.1 h with h | ⟨body, -, h⟩
        · exact grouped_ne_sourceNotFound h
        · cases h

lemma regenerate_eq_sourceNotFound_iff {r : Registry} {xml : String} {o : ConversionOptions} :
    r.regenerate xml none o = .error (.sourceNotFound "the provided XML") ↔
      Document.source? xml = none := by
  unfold regenerate
  rw [Option.filter_none, Option.none_or]
  cases Document.source? xml with
  | none => exact iff_of_true rfl rfl
  | some text => exact iff_of_false convert_ne_sourceNotFound (Option.some_ne_none text)

/-- In a drawing without a group no diagram text is found, and so it is not drawn again without a
new text, if and only if neither a label nor, in a document, the name of the page ends like the
attribute for a diagram text. -/
theorem source?_convert_ungrouped_iff (hgroup : o.inGroup = false)
    (h : standard.convert text o = .ok c) :
    ∃ (d : Dialect) (cells : List Cell), c.dialect = d.key ∧ d.draw text "1" = .ok cells ∧
      (Document.source? c.xml = none ↔
        (o.inDocument = true → ¬ "plantUml=".toList <:+ o.name.toList) ∧
          ∀ cell ∈ cells, ¬ "plantUml=".toList <:+ cell.value.toList) ∧
      ∀ o', standard.regenerate c.xml none o' = .error (.sourceNotFound "the provided XML") ↔
        Document.source? c.xml = none := by
  obtain ⟨d, cells, hkey, hdraw, hxml⟩ := exists_cells_of_convert hgroup h
  refine ⟨d, cells, hkey, hdraw, ?_, fun _ => regenerate_eq_sourceNotFound_iff⟩
  · cases hdocument : o.inDocument with
    | false =>
      rw [hdocument, if_neg (by decide)] at hxml
      rw [hxml, source?_renderAll_eq_none_iff hdraw]
      exact (and_iff_right nofun).symm
    | true =>
      rw [hdocument, if_pos rfl] at hxml
      obtain ⟨vs, hvs, hiff⟩ := Document.hides_wrap (hides_renderAll hdraw) o.name
      rw [hxml, hvs.source?_eq_none_iff, hiff]
      exact and_congr_left fun _ => ⟨fun hname _ => hname, fun hname => hname rfl⟩

/-- A label that ends with the name of the attribute, but without an equality sign. -/
theorem source?_convert_ungrouped_name : ∃ c,
    standard.convert "[*] --> a : plantUml" { inGroup := false } = .ok c ∧
      Document.source? c.xml = none ∧
      standard.regenerate c.xml none {} = .error (.sourceNotFound "the provided XML") := by
  obtain ⟨c, hc, hdialect⟩ := Fault.exists_of_any (by decide +kernel :
    (standard.convert "[*] --> a : plantUml" { inGroup := false }).toOption.any
      (fun c => c.dialect == Dialect.states.key) = true)
  obtain ⟨d, cells, hkey, hdraw, hiff, hregenerate⟩ := source?_convert_ungrouped_iff rfl hc
  obtain rfl := Dialect.key_injective (hkey.symm.trans (beq_iff_eq.1 hdialect))
  have hcells : ∀ cell ∈ cells, ¬ "plantUml=".toList <:+ cell.value.toList := by
    rw [← Except.ok.inj hdraw]
    decide +kernel
  have hsource := hiff.2 ⟨fun _ => by decide, hcells⟩
  exact ⟨c, hc, hsource, (hregenerate {}).2 hsource⟩

/-- With the equality sign something is found, and drawing again does not miss the text. -/
theorem source?_convert_ungrouped_ends : ∃ c,
    standard.convert "[*] --> a : plantUml=" { inGroup := false, inDocument := false } = .ok c ∧
      Document.source? c.xml ≠ none ∧
      standard.regenerate c.xml none {} ≠ .error (.sourceNotFound "the provided XML") := by
  obtain ⟨c, hc, hdialect⟩ := Fault.exists_of_any (by decide +kernel :
    (standard.convert "[*] --> a : plantUml=" { inGroup := false, inDocument := false }).toOption.any
      (fun c => c.dialect == Dialect.states.key) = true)
  obtain ⟨d, cells, hkey, hdraw, hxml⟩ := exists_cells_of_convert rfl hc
  obtain rfl := Dialect.key_injective (hkey.symm.trans (beq_iff_eq.1 hdialect))
  have hcells : ∃ cell ∈ cells, EndsLikeSource cell.value := by
    rw [← Except.ok.inj hdraw]
    decide +kernel
  have hsource : Document.source? c.xml ≠ none := by
    obtain ⟨cell, hcell, hvalue⟩ := hcells
    rw [hxml, if_neg (by decide), ne_eq, source?_renderAll_eq_none_iff hdraw]
    exact fun hall => hall cell hcell hvalue
  exact ⟨c, hc, hsource, fun h => hsource (regenerate_eq_sourceNotFound_iff.1 h)⟩

end Registry
end UmlDraw
