/-
# Reading the tags of a text

A reader of marked up texts: at each `<` it reads the name of an element and its attributes, up to
the next `>`, and takes written forms in the values for the characters that they stand for.  A text
whose tags are closed is read piece by piece.

The main statements are

* `Tag.readAll_append`: the tags of a text that leaves no tag open come before those of the rest;
* `Tag.read_write`: a tag is read back as it was written;
* `Tag.Shows.append`: what two closed texts show one after the other.
-/
import Mathlib.Tactic.Lemma
import UmlDraw.Proofs.Text.Replaced
import UmlDraw.Proofs.Text.Search

namespace UmlDraw

/-- A tag: the name of an element and its attributes.  The name is empty if the tag ends an
element. -/
structure Tag where
  name : String
  attributes : List (String × String)
deriving DecidableEq

namespace Tag

/-- A character of the name of an element. -/
def isNameChar (c : Char) : Bool :=
  !Letter.isBlank c && c != '/'

/-- The name of an attribute, without the blanks before it and the equality sign behind it. -/
def attributeName (s : List Char) : String :=
  String.ofList ((Chars.trimLeft s).takeWhile (· != '='))

/-- The attributes that are written in parts between quotation marks: a part before the value, the
value, and what comes behind it. -/
def pairUp : List (List Char) → List (String × String)
  | before :: value :: rest =>
    if rest.isEmpty then []
    else (attributeName before, String.ofList (Escape.unescapeChars value)) :: pairUp rest
  | _ => []

/-- The tag with the given characters between `<` and `>`. -/
def read (s : List Char) : Tag where
  name := String.ofList (s.takeWhile isNameChar)
  attributes := pairUp (Chars.split '"' (s.dropWhile isNameChar))

/-- The tags of a text. -/
def readAll : List Char → List Tag
  | [] => []
  | c :: s => if c = '<' then read (s.takeWhile (· != '>')) :: readAll s else readAll s

/-- The value of an attribute. -/
def value? (t : Tag) (name : String) : Option String :=
  t.attributes.lookup name

/-! ### Texts without open tags -/

/-- No tag begins or ends in the text. -/
def Unmarked (s : List Char) : Prop :=
  ∀ c ∈ s, c ≠ '<' ∧ c ≠ '>'

instance (s : List Char) : Decidable (Unmarked s) :=
  List.decidableBAll _ s

/-- Every tag that begins in the text ends in it. -/
def isClosed : List Char → Bool
  | [] => true
  | c :: s => (c != '<' || s.contains '>') && isClosed s

@[simp]
lemma unmarked_nil : Unmarked [] :=
  fun _ h => nomatch h

@[simp]
lemma unmarked_append {s t : List Char} : Unmarked (s ++ t) ↔ Unmarked s ∧ Unmarked t :=
  List.forall_mem_append

@[simp]
lemma unmarked_cons {c : Char} {s : List Char} :
    Unmarked (c :: s) ↔ (c ≠ '<' ∧ c ≠ '>') ∧ Unmarked s :=
  List.forall_mem_cons

lemma unmarked_escapeChars (s : List Char) : Unmarked (Escape.escapeChars s) := by
  intro c hc
  constructor
  · rintro rfl
    exact Escape.lt_not_mem_escapeChars s hc
  · rintro rfl
    exact Escape.gt_not_mem_escapeChars s hc

lemma unmarked_intercalate {sep : List Char} {parts : List (List Char)} (hsep : Unmarked sep)
    (h : ∀ part ∈ parts, Unmarked part) : Unmarked (sep.intercalate parts) := by
  induction parts with
  | nil => exact unmarked_nil
  | cons part parts ih =>
    obtain ⟨hpart, hparts⟩ := List.forall_mem_cons.1 h
    cases parts with
    | nil => simpa using hpart
    | cons next parts =>
      have hrest := ih hparts
      simp only [List.intercalate, List.intersperse_cons_cons, List.flatten_cons] at hrest ⊢
      exact unmarked_append.2 ⟨hpart, unmarked_append.2 ⟨hsep, hrest⟩⟩

lemma takeWhile_append_of_mem {s : List Char} (h : '>' ∈ s) (t : List Char) :
    (s ++ t).takeWhile (· != '>') = s.takeWhile (· != '>') := by
  induction s with
  | nil => cases h
  | cons c s ih =>
    rw [List.cons_append, List.takeWhile_cons, List.takeWhile_cons]
    split
    · next hc =>
      rcases List.mem_cons.1 h with rfl | h
      · exact absurd hc (by decide)
      · rw [ih h]
    · rfl

lemma readAll_append {s : List Char} (h : isClosed s = true) (t : List Char) :
    readAll (s ++ t) = readAll s ++ readAll t := by
  induction s with
  | nil => rfl
  | cons c s ih =>
    obtain ⟨hc, hs⟩ := Bool.and_eq_true_iff.1 h
    rw [List.cons_append, readAll, readAll, ih hs]
    split
    · next hlt =>
      -- the tag ends in the first part, so it is read without the rest
      have hmem : '>' ∈ s := by simpa [hlt] using hc
      rw [takeWhile_append_of_mem hmem, List.cons_append]
    · rfl

lemma readAll_of_unmarked {s : List Char} (h : Unmarked s) : readAll s = [] := by
  induction s with
  | nil => rfl
  | cons c s ih =>
    obtain ⟨⟨hc, -⟩, hs⟩ := unmarked_cons.1 h
    rw [readAll, if_neg hc, ih hs]

lemma isClosed_of_unmarked {s : List Char} (h : Unmarked s) : isClosed s = true := by
  induction s with
  | nil => rfl
  | cons c s ih =>
    obtain ⟨⟨hc, -⟩, hs⟩ := unmarked_cons.1 h
    rw [isClosed, ih hs, Bool.and_true, Bool.or_eq_true, bne_iff_ne]
    exact .inl hc

/-! ### Attributes -/

/-- The written form of an attribute. -/
def writeAttribute (p : String × String) : List Char :=
  p.1.toList ++ '=' :: '"' :: (Escape.escapeChars p.2.toList ++ ['"'])

/-- The written forms of attributes, each behind a blank. -/
def writeAttributes (ps : List (String × String)) : List Char :=
  ps.flatMap fun p => ' ' :: writeAttribute p

/-- A name that is read back as it is written. -/
def isAttributeName (name : String) : Bool :=
  name.toList.all fun c => !Letter.isBlank c && !(['=', '"', '<', '>'].contains c)

lemma of_isAttributeName {name : String} (h : isAttributeName name = true) :
    ∀ c ∈ name.toList, Letter.isBlank c = false ∧ c ∉ ['=', '"', '<', '>'] := by
  intro c hc
  have hc := List.all_eq_true.1 h c hc
  rw [Bool.and_eq_true, Bool.not_eq_true', Bool.not_eq_true', List.contains_eq_mem,
    decide_eq_false_iff_not] at hc
  exact hc

lemma attributeName_write {name : String} (h : isAttributeName name = true) :
    attributeName (' ' :: (name.toList ++ ['='])) = name := by
  have hname := of_isAttributeName h
  have htrim : Chars.trimLeft (' ' :: (name.toList ++ ['='])) = name.toList ++ ['='] := by
    unfold Chars.trimLeft
    rw [List.dropWhile_cons_of_pos (by decide)]
    -- the blank in front is all that is trimmed, since a name has none
    cases hs : name.toList with
    | nil => decide
    | cons c s =>
      have hc := (hname c (by rw [hs]; exact List.mem_cons_self)).1
      rw [List.cons_append, List.dropWhile_cons_of_neg (by rw [hc]; decide)]
  have heq : '=' ∉ name.toList := fun hmem => (hname _ hmem).2 (by decide)
  rw [attributeName, htrim, Chars.takeWhile_stop heq, String.ofList_toList]

lemma attributes_write {ps : List (String × String)} {stop : List Char}
    (hps : ∀ p ∈ ps, isAttributeName p.1 = true) (hstop : '"' ∉ stop) :
    pairUp (Chars.split '"' (writeAttributes ps ++ stop)) = ps := by
  induction ps with
  | nil =>
    rw [writeAttributes, List.flatMap_nil, List.nil_append, Chars.split_of_not_mem hstop]
    rfl
  | cons p ps ih =>
    obtain ⟨hp, hps⟩ := List.forall_mem_cons.1 hps
    have hname : '"' ∉ ' ' :: (p.1.toList ++ ['=']) := by
      intro hmem
      simp only [List.mem_cons, List.mem_append, List.not_mem_nil, or_false] at hmem
      rcases hmem with hmem | hmem | hmem
      · exact absurd hmem (by decide)
      · exact (of_isAttributeName hp _ hmem).2 (by decide)
      · exact absurd hmem (by decide)
    have hwrite : writeAttributes (p :: ps) ++ stop =
        (' ' :: (p.1.toList ++ ['='])) ++ '"' :: (Escape.escapeChars p.2.toList ++
          '"' :: (writeAttributes ps ++ stop)) := by
      simp [writeAttributes, writeAttribute]
    -- something stands behind the value, so its quotation marks are closed
    obtain ⟨part, parts, hparts⟩ :=
      List.exists_cons_of_ne_nil (Chars.splitWhen_ne_nil (· == '"') (writeAttributes ps ++ stop))
    have ih := ih hps
    rw [hwrite, Chars.split_append hname, Chars.split_append (Escape.quote_not_mem_escapeChars _)]
    unfold Chars.split at ih ⊢
    rw [hparts] at ih ⊢
    rw [pairUp, List.isEmpty_cons, if_neg (by decide), ih, attributeName_write hp,
      Escape.unescapeChars_escapeChars, String.ofList_toList]

lemma unmarked_writeAttributes {ps : List (String × String)}
    (hps : ∀ p ∈ ps, isAttributeName p.1 = true) : Unmarked (writeAttributes ps) := by
  induction ps with
  | nil => exact unmarked_nil
  | cons p ps ih =>
    obtain ⟨hp, hps⟩ := List.forall_mem_cons.1 hps
    have hname : Unmarked p.1.toList := by
      intro c hc
      have hc := (of_isAttributeName hp c hc).2
      constructor
      · rintro rfl
        exact hc (by decide)
      · rintro rfl
        exact hc (by decide)
    have hvalue := unmarked_escapeChars p.2.toList
    simpa [writeAttributes, writeAttribute, hname, hvalue] using ih hps

/-- A tag is read back as it was written, also with a slash at its end. -/
lemma read_write {name stop : List Char} {ps : List (String × String)}
    (hname : name.all isNameChar = true) (hps : ∀ p ∈ ps, isAttributeName p.1 = true)
    (hstop : stop = [] ∨ stop = ['/']) :
    read (name ++ (writeAttributes ps ++ stop)) = ⟨String.ofList name, ps⟩ := by
  have hname := List.all_eq_true.1 hname
  have hquote : '"' ∉ stop := by
    rcases hstop with rfl | rfl
    · decide
    · decide
  obtain ⟨htake, hdrop⟩ : (writeAttributes ps ++ stop).takeWhile isNameChar = [] ∧
      (writeAttributes ps ++ stop).dropWhile isNameChar = writeAttributes ps ++ stop := by
    -- a blank, a slash or nothing comes behind the name
    cases ps with
    | nil =>
      rcases hstop with rfl | rfl
      · exact ⟨rfl, rfl⟩
      · exact ⟨List.takeWhile_cons_of_neg (by decide), List.dropWhile_cons_of_neg (by decide)⟩
    | cons p ps =>
      exact ⟨List.takeWhile_cons_of_neg (by decide), List.dropWhile_cons_of_neg (by decide)⟩
  rw [read, List.takeWhile_append_of_pos hname, List.dropWhile_append_of_pos hname, htake, hdrop,
    List.append_nil, attributes_write hps hquote]

lemma name_read {name : List Char} (hname : name.all isNameChar = true) (s : List Char) :
    (read (name ++ ' ' :: s)).name = String.ofList name := by
  rw [read, List.takeWhile_append_of_pos (List.all_eq_true.1 hname),
    List.takeWhile_cons_of_neg (by decide), List.append_nil]

/-! ### The tags that count -/

/-- The elements that say what a drawing is made of; others hold places only. -/
def isMain (t : Tag) : Bool :=
  ["mxfile", "diagram", "UserObject", "mxCell"].contains t.name

/-- A text without open tags, and its tags that count. -/
structure Shows (s : List Char) (ts : List Tag) : Prop where
  closed : isClosed s = true
  tags : (readAll s).filter isMain = ts

instance (s : List Char) (ts : List Tag) : Decidable (Shows s ts) :=
  decidable_of_iff (isClosed s = true ∧ (readAll s).filter isMain = ts)
    ⟨fun h => ⟨h.1, h.2⟩, fun h => ⟨h.closed, h.tags⟩⟩

lemma isClosed_append {s t : List Char} (hs : isClosed s = true) (ht : isClosed t = true) :
    isClosed (s ++ t) = true := by
  induction s with
  | nil => exact ht
  | cons c s ih =>
    obtain ⟨hc, hs⟩ := Bool.and_eq_true_iff.1 hs
    rw [List.cons_append, isClosed, ih hs, Bool.and_true]
    rcases Bool.or_eq_true_iff.1 hc with hc | hc
    · rw [hc, Bool.true_or]
    · rw [List.contains_append, hc, Bool.true_or, Bool.or_true]

lemma Shows.append {s t : List Char} {ts us : List Tag} (hs : Shows s ts) (ht : Shows t us) :
    Shows (s ++ t) (ts ++ us) where
  closed := isClosed_append hs.closed ht.closed
  tags := by rw [readAll_append hs.closed, List.filter_append, hs.tags, ht.tags]

lemma Shows.between {s before after : List Char} {ts : List Tag} (hbefore : Shows before [])
    (hs : Shows s ts) (hafter : Shows after []) : Shows (before ++ s ++ after) ts := by
  simpa using (hbefore.append hs).append hafter

lemma shows_of_unmarked {s : List Char} (h : Unmarked s) : Shows s [] where
  closed := isClosed_of_unmarked h
  tags := by rw [readAll_of_unmarked h, List.filter_nil]

/-- A single tag. -/
lemma shows_tag {s : List Char} (h : Unmarked s) :
    Shows ('<' :: (s ++ ['>'])) ([read s].filter isMain) where
  closed := by
    have hs := isClosed_append (isClosed_of_unmarked h) (t := ['>']) (by decide)
    simp [isClosed, hs]
  tags := by
    have hgt : '>' ∉ s := fun hmem => (h _ hmem).2 rfl
    have hread : readAll (s ++ ['>']) = [] := by
      rw [readAll_append (isClosed_of_unmarked h), readAll_of_unmarked h]
      rfl
    rw [readAll, if_pos rfl, Chars.takeWhile_stop hgt, hread]

/-- A single tag that counts. -/
lemma shows_write {name stop : List Char} {ps : List (String × String)}
    (hname : name.all isNameChar = true) (hmarks : Unmarked name)
    (hmain : isMain ⟨String.ofList name, []⟩ = true)
    (hps : ∀ p ∈ ps, isAttributeName p.1 = true) (hstop : stop = [] ∨ stop = ['/']) :
    Shows ('<' :: (name ++ (writeAttributes ps ++ stop) ++ ['>'])) [⟨String.ofList name, ps⟩] := by
  have hunmarked : Unmarked (name ++ (writeAttributes ps ++ stop)) := by
    have hattributes := unmarked_writeAttributes hps
    rcases hstop with rfl | rfl
    · simp [hmarks, hattributes]
    · simp [hmarks, hattributes]
  have hkept : isMain ⟨String.ofList name, ps⟩ = true := hmain
  have hshows := shows_tag hunmarked
  rwa [read_write hname hps hstop, List.filter_cons_of_pos hkept, List.filter_nil] at hshows

/-- A single tag that does not count. -/
lemma shows_place {name s : List Char} (hname : name.all isNameChar = true)
    (hmain : isMain ⟨String.ofList name, []⟩ = false) (h : Unmarked (name ++ ' ' :: s)) :
    Shows ('<' :: (name ++ ' ' :: s ++ ['>'])) [] := by
  have hread : isMain (read (name ++ ' ' :: s)) = false := by
    rw [isMain, name_read hname]
    exact hmain
  have hshows := shows_tag h
  rwa [List.filter_cons_of_neg (by simp [hread]), List.filter_nil] at hshows

lemma Shows.intercalate {α : Type} {sep : List Char} {as : List α} {f : α → List Char}
    {g : α → List Tag} (hsep : Unmarked sep) (h : ∀ a ∈ as, Shows (f a) (g a)) :
    Shows (sep.intercalate (as.map f)) (as.flatMap g) := by
  induction as with
  | nil => exact shows_of_unmarked unmarked_nil
  | cons a as ih =>
    obtain ⟨ha, has⟩ := List.forall_mem_cons.1 h
    cases as with
    | nil => simpa using ha
    | cons b as =>
      have hrest := (shows_of_unmarked hsep).append (ih has)
      simpa [List.intercalate] using ha.append hrest

lemma shows_join {α : Type} {sep : String} {as : List α} {f : α → String} {g : α → List Tag}
    (hsep : Unmarked sep.toList) (h : ∀ a ∈ as, Shows (f a).toList (g a)) :
    Shows (Text.join sep (as.map f)).toList (as.flatMap g) := by
  rw [Text.join, String.toList_intercalate, List.map_map]
  exact Shows.intercalate hsep h

lemma shows_join_places {sep : String} {parts : List String} (hsep : Unmarked sep.toList)
    (h : ∀ part ∈ parts, Shows part.toList []) : Shows (Text.join sep parts).toList [] := by
  have hjoin := shows_join (f := id) (g := fun _ => []) hsep h
  rwa [List.map_id, List.flatMap_eq_nil_iff.2 fun _ _ => rfl] at hjoin

end Tag
end UmlDraw
