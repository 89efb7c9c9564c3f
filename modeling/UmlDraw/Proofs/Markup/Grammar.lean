/-
# The grammar of documents

The part of the grammar of XML 1.0 that drawings need.  Elements nest, their attributes have
different names, and in values and between elements marks are written as references.  Beside that a
document may hold only some characters.

The main statements are

* `Xml.value_escapeChars`: a written text is the value of an attribute;
* `Xml.legal_escapeChars`: it is legal if and only if the text is;
* `Xml.element_single`, `Xml.element_around`: tags with written attributes make elements.
-/
import UmlDraw.Proofs.Markup.Tag

namespace UmlDraw

namespace Xml

/-! ### The grammar -/

/-- A character that may stand in a document. -/
def isChar (c : Char) : Bool :=
  c == '\t' || c == '\n' || c == '\r' || (0x20 ≤ c.toNat && c.toNat ≤ 0xd7ff) ||
    (0xe000 ≤ c.toNat && c.toNat ≤ 0xfffd) || (0x10000 ≤ c.toNat && c.toNat ≤ 0x10ffff)

/-- All characters of the text may stand in a document. -/
def Legal (s : List Char) : Prop :=
  ∀ c ∈ s, isChar c = true

instance (s : List Char) : Decidable (Legal s) :=
  List.decidableBAll _ s

/-- A character at the front of a name.  Names are written in ASCII here. -/
def isNameStart (c : Char) : Bool :=
  c.isAlpha || c == '_' || c == ':'

/-- The name of an element or of an attribute. -/
def isName : List Char → Bool
  | [] => false
  | c :: s => isNameStart c && s.all fun d => isNameStart d || d.isDigit || d == '-' || d == '.'

/-- A reference to a character, by a name that needs no declaration or by its code. -/
inductive Reference : List Char → Prop
  | entity {name : String} (h : name ∈ ["amp", "lt", "gt", "apos", "quot"]) :
    Reference ('&' :: (name.toList ++ [';']))
  | code {c : Char} (h : isChar c = true) :
    Reference ('&' :: '#' :: 'x' :: (Nat.toDigits 16 c.toNat ++ [';']))

/-- The value of an attribute. -/
inductive Value : List Char → Prop
  | nil : Value []
  | char {c : Char} {s : List Char} (hc : c ∉ ['<', '&', '"']) (h : Value s) : Value (c :: s)
  | reference {r s : List Char} (hr : Reference r) (h : Value s) : Value (r ++ s)

/-- Attributes, each with its name and its value. -/
structure Attributes (ps : List (List Char × List Char)) : Prop where
  names : ∀ p ∈ ps, isName p.1 = true
  nodup : (ps.map Prod.fst).Nodup
  values : ∀ p ∈ ps, Value p.2

/-- Attributes as they stand in a tag. -/
def writeAttributes (ps : List (List Char × List Char)) : List Char :=
  ps.flatMap fun p => ' ' :: (p.1 ++ '=' :: '"' :: (p.2 ++ ['"']))

mutual

/-- An element: a single tag, or content between two tags of the same name. -/
inductive Element : List Char → Prop
  | single {name : List Char} {ps : List (List Char × List Char)} (hname : isName name = true)
    (hps : Attributes ps) : Element ('<' :: (name ++ (writeAttributes ps ++ ['/', '>'])))
  | around {name : List Char} {ps : List (List Char × List Char)} {content : List Char}
    (hname : isName name = true) (hps : Attributes ps) (h : Content content) :
    Element ('<' :: (name ++ (writeAttributes ps ++
      '>' :: (content ++ '<' :: '/' :: (name ++ ['>'])))))

/-- What stands between tags: characters, references and elements. -/
inductive Content : List Char → Prop
  | nil : Content []
  | char {c : Char} {s : List Char} (hc : c ∉ ['<', '&', '>']) (h : Content s) : Content (c :: s)
  | reference {r s : List Char} (hr : Reference r) (h : Content s) : Content (r ++ s)
  | element {e s : List Char} (he : Element e) (h : Content s) : Content (e ++ s)

end

lemma Content.append {s t : List Char} (hs : Content s) (ht : Content t) : Content (s ++ t) :=
  match hs with
  | .nil => ht
  | .char hc h => .char hc (h.append ht)
  | .reference (r := r) (s := s) hr h => by
    rw [List.append_assoc]
    exact .reference hr (h.append ht)
  | .element (e := e) (s := s) he h => by
    rw [List.append_assoc]
    exact .element he (h.append ht)

lemma Element.content {e : List Char} (h : Element e) : Content e :=
  List.append_nil e ▸ .element h .nil

/-- Characters that are no marks. -/
lemma content_of_plain {s : List Char} (h : ∀ c ∈ s, c ∉ ['<', '&', '>']) : Content s := by
  induction s with
  | nil => exact .nil
  | cons c s ih =>
    obtain ⟨hc, hs⟩ := List.forall_mem_cons.1 h
    exact .char hc (ih hs)

/-- The names and the written values of attributes. -/
def written (ps : List (String × String)) : List (List Char × List Char) :=
  ps.map fun p => (p.1.toList, Escape.escapeChars p.2.toList)

lemma writeAttributes_written (ps : List (String × String)) :
    writeAttributes (written ps) = Tag.writeAttributes ps := by
  simp [writeAttributes, written, Tag.writeAttributes, Tag.writeAttribute, List.flatMap_map]

/-- The start of a tag, up to its last attribute. -/
def opening (name : String) (ps : List (String × String)) : List Char :=
  '<' :: (name.toList ++ Tag.writeAttributes ps)

/-- An element without content. -/
def single (name : String) (ps : List (String × String)) : List Char :=
  opening name ps ++ ['/', '>']

/-- An element around content. -/
def around (name : String) (ps : List (String × String)) (content : List Char) : List Char :=
  opening name ps ++ '>' :: (content ++ '<' :: '/' :: (name.toList ++ ['>']))

variable {name : String} {ps : List (String × String)}

lemma element_around (hname : isName name.toList = true) (hps : Attributes (written ps))
    {content : List Char} (h : Content content) : Element (around name ps content) := by
  have h := Element.around hname hps h
  rwa [writeAttributes_written, ← List.append_assoc, ← List.cons_append] at h

/-! ### Legal characters -/

@[simp]
lemma legal_nil : Legal [] :=
  fun _ h => nomatch h

@[simp]
lemma legal_append {s t : List Char} : Legal (s ++ t) ↔ Legal s ∧ Legal t :=
  List.forall_mem_append

@[simp]
lemma legal_cons {c : Char} {s : List Char} : Legal (c :: s) ↔ isChar c = true ∧ Legal s :=
  List.forall_mem_cons

lemma legal_flatten {parts : List (List Char)} :
    Legal parts.flatten ↔ ∀ part ∈ parts, Legal part := by
  induction parts with
  | nil => simp
  | cons part parts ih => simp [ih]

/-- The written forms of the special characters are made of legal ones, and so are these. -/
lemma legal_char (c : Char) : Legal (Escape.char c) ↔ isChar c = true := by
  by_cases hc : c ∈ Escape.special
  · simp only [Escape.special, List.mem_cons, List.not_mem_nil, or_false] at hc
    rcases hc with rfl | rfl | rfl | rfl | rfl | rfl | rfl <;> decide
  · rw [Escape.char_of_not_special hc]
    simp

lemma legal_escapeChars {s : List Char} : Legal (Escape.escapeChars s) ↔ Legal s := by
  induction s with
  | nil => simp
  | cons c s ih =>
    have hcons : Escape.escapeChars (c :: s) = Escape.char c ++ Escape.escapeChars s := rfl
    rw [hcons, legal_append, legal_char, ih, legal_cons]

lemma isChar_of_lt {c : Char} (hlow : 0x20 ≤ c.toNat) (hhigh : c.toNat < 0x80) :
    isChar c = true := by
  simp only [isChar, Bool.or_eq_true, Bool.and_eq_true, decide_eq_true_eq]
  omega

lemma isChar_of_isDigit {c : Char} (h : c.isDigit = true) : isChar c = true := by
  obtain ⟨hlow, hhigh⟩ := Char.isDigit_iff_toNat.1 h
  exact isChar_of_lt (Nat.le_trans (by decide) hlow) (Nat.lt_of_le_of_lt hhigh (by decide))

lemma isChar_of_isNameStart {c : Char} (h : isNameStart c = true) : isChar c = true := by
  simp only [isNameStart, Bool.or_eq_true, beq_iff_eq] at h
  rcases h with (h | rfl) | rfl
  · have hval : c.toNat = c.val.toNat := rfl
    change (decide ('A'.val ≤ c.val ∧ c.val ≤ 'Z'.val) ||
      (decide ('a'.val ≤ c.val) && decide (c.val ≤ 'z'.val))) = true at h
    simp [UInt32.le_iff_toNat_le] at h
    exact isChar_of_lt (by omega) (by omega)
  · decide
  · decide

lemma legal_of_isName {name : List Char} (h : isName name = true) : Legal name := by
  cases name with
  | nil => exact legal_nil
  | cons c s =>
    obtain ⟨hc, hs⟩ := Bool.and_eq_true_iff.1 h
    refine legal_cons.2 ⟨isChar_of_isNameStart hc, fun d hd => ?_⟩
    have hd := List.all_eq_true.1 hs d hd
    simp only [Bool.or_eq_true, beq_iff_eq] at hd
    rcases hd with ((hd | hd) | rfl) | rfl
    · exact isChar_of_isNameStart hd
    · exact isChar_of_isDigit hd
    · decide
    · decide

lemma legal_opening (hname : isName name.toList = true) (hps : Attributes (written ps)) :
    Legal (opening name ps) ↔ ∀ p ∈ ps, Legal p.2.toList := by
  have hattribute : ∀ p ∈ ps, Legal (' ' :: Tag.writeAttribute p) ↔ Legal p.2.toList := by
    intro p hp
    have hp := legal_of_isName (hps.names _ (List.mem_map_of_mem hp))
    have hmarks : isChar ' ' = true ∧ isChar '=' = true ∧ isChar '"' = true := by decide
    simp [Tag.writeAttribute, legal_escapeChars, hp, hmarks]
  rw [opening, legal_cons, legal_append, and_iff_right (by decide : isChar '<' = true),
    and_iff_right (legal_of_isName hname), Tag.writeAttributes, List.flatMap_def,
    legal_flatten, List.forall_mem_map]
  exact forall₂_congr hattribute

lemma legal_around (hname : isName name.toList = true) (hps : Attributes (written ps))
    {content : List Char} :
    Legal (around name ps content) ↔ (∀ p ∈ ps, Legal p.2.toList) ∧ Legal content := by
  have hend := legal_of_isName hname
  have hmarks : isChar '<' = true ∧ isChar '/' = true ∧ isChar '>' = true := by decide
  simp [around, legal_opening hname hps, hend, hmarks]

/-! ### Legal content -/

/-- Content that is made of legal characters. -/
structure LegalContent (s : List Char) : Prop where
  content : Content s
  legal : Legal s

lemma LegalContent.append {s t : List Char} (hs : LegalContent s) (ht : LegalContent t) :
    LegalContent (s ++ t) where
  content := hs.content.append ht.content
  legal := legal_append.2 ⟨hs.legal, ht.legal⟩

/-- Line breaks and blanks. -/
def Blank (s : List Char) : Prop :=
  ∀ c ∈ s, c = '\n' ∨ c = ' '

instance (s : List Char) : Decidable (Blank s) :=
  List.decidableBAll _ s

lemma Blank.legalContent {s : List Char} (h : Blank s) : LegalContent s := by
  have hplain : ∀ c, c = '\n' ∨ c = ' ' → c ∉ ['<', '&', '>'] ∧ isChar c = true := by
    rintro c (rfl | rfl)
    · decide
    · decide
  exact ⟨content_of_plain fun c hc => (hplain c (h c hc)).1, fun c hc => (hplain c (h c hc)).2⟩

variable {before after s : List Char}

lemma Content.framed (h : Content s) (hbefore : Blank before) (hafter : Blank after) :
    Content (before ++ s ++ after) :=
  (hbefore.legalContent.content.append h).append hafter.legalContent.content

lemma legal_framed (hbefore : Blank before) (hafter : Blank after) :
    Legal (before ++ s ++ after) ↔ Legal s := by
  rw [legal_append, legal_append, and_iff_right hbefore.legalContent.legal,
    and_iff_left hafter.legalContent.legal]

lemma LegalContent.framed (h : LegalContent s) (hbefore : Blank before) (hafter : Blank after) :
    LegalContent (before ++ s ++ after) where
  content := h.content.framed hbefore hafter
  legal := (legal_framed hbefore hafter).2 h.legal

lemma LegalContent.around (hname : isName name.toList = true) (hps : Attributes (written ps))
    (hlegal : ∀ p ∈ ps, Legal p.2.toList) {content : List Char} (h : LegalContent content) :
    LegalContent (around name ps content) where
  content := (element_around hname hps h.content).content
  legal := (legal_around hname hps).2 ⟨hlegal, h.legal⟩

end Xml

end UmlDraw
