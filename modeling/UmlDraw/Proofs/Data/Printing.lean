/-
# Printings of structured data

The texts that stand for a value: blanks may stand around every token, and a character of a string
may be written in several ways.  A printing is read back, also if its lines are broken and indented
in another way.

The main statements are

* `Json.read?_of_prints`: what a printing is read as;
* `Json.Prints.respaced`: other line breaks make another printing of the same value.
-/
import UmlDraw.Proofs.Data.Json

namespace UmlDraw
namespace Json

/-- Blanks between tokens. -/
def Spaces (s : List Char) : Prop :=
  ∀ c ∈ s, isSpace c = true

instance (s : List Char) : Decidable (Spaces s) :=
  inferInstanceAs (Decidable (∀ c ∈ s, isSpace c = true))

section Grammar

variable (P : List Char → Prop)

mutual

/-- The text is a printing of the value, in which the characters between the quotation marks of each
string have a property. -/
inductive Prints : Json → List Char → Prop
  | null : Prints .null "null".toList
  | yes : Prints (.bool true) "true".toList
  | no : Prints (.bool false) "false".toList
  | number {x : Number} {s : List Char} (h : readNumber s = some (x, [])) : Prints (.number x) s
  | string {raw s : List Char} (h : Raw raw s) (hraw : P raw) :
    Prints (.string (String.ofList s)) ('"' :: (raw ++ ['"']))
  | emptyArray {w : List Char} (hw : Spaces w) : Prints (.array []) ('[' :: (w ++ [']']))
  | array {vs : List Json} {s : List Char} (h : PrintsItems vs s) :
    Prints (.array vs) ('[' :: (s ++ [']']))
  | emptyObject {w : List Char} (hw : Spaces w) : Prints (.object []) ('\x7b' :: (w ++ ['\x7d']))
  | object {es : List (String × Json)} {s : List Char} (h : PrintsEntries es s) :
    Prints (.object (Keyed.ofList es).entries) ('\x7b' :: (s ++ ['\x7d']))

/-- A printing with blanks around it. -/
inductive PrintsPadded : Json → List Char → Prop
  | mk {v : Json} {w s w' : List Char} (hw : Spaces w) (h : Prints v s) (hw' : Spaces w') :
    PrintsPadded v (w ++ (s ++ w'))

/-- Printings of items with commas between them. -/
inductive PrintsItems : List Json → List Char → Prop
  | last {v : Json} {s : List Char} (h : PrintsPadded v s) : PrintsItems [v] s
  | more {v : Json} {vs : List Json} {s t : List Char} (h : PrintsPadded v s)
    (ht : PrintsItems vs t) : PrintsItems (v :: vs) (s ++ ',' :: t)

/-- Printings of entries with commas between them. -/
inductive PrintsEntries : List (String × Json) → List Char → Prop
  | last {raw key w w' s : List Char} {v : Json} (hw : Spaces w) (hkey : Raw raw key)
    (hraw : P raw) (hw' : Spaces w') (h : PrintsPadded v s) :
    PrintsEntries [(String.ofList key, v)] (w ++ '"' :: (raw ++ '"' :: (w' ++ ':' :: s)))
  | more {raw key w w' s t : List Char} {v : Json} {es : List (String × Json)} (hw : Spaces w)
    (hkey : Raw raw key) (hraw : P raw) (hw' : Spaces w') (h : PrintsPadded v s)
    (ht : PrintsEntries es t) : PrintsEntries ((String.ofList key, v) :: es)
      (w ++ '"' :: (raw ++ '"' :: (w' ++ ':' :: (s ++ ',' :: t))))

end

end Grammar

variable {P : List Char → Prop} {v : Json} {s t : List Char}

/-! ### The ends of a printing -/

lemma isBlank_of_isSpace {c : Char} (h : isSpace c = true) : Letter.isBlank c = true := by
  simp only [isSpace, Bool.or_eq_true, beq_iff_eq] at h
  rcases h with ((rfl | rfl) | rfl) | rfl <;> decide

lemma isBlank_of_isNumberChar {c : Char} (h : isNumberChar c = true) :
    Letter.isBlank c = false := by
  rcases Bool.or_eq_true_iff.1 h with h | h
  · obtain ⟨hlow, hhigh⟩ := Char.isDigit_iff_toNat.1 h
    have hlow : 48 ≤ c.toNat := hlow
    have hhigh : c.toNat ≤ 57 := hhigh
    simp only [Letter.isBlank, Bool.or_eq_false_iff, Bool.and_eq_false_iff,
      decide_eq_false_iff_not, beq_eq_false_iff_ne]
    omega
  · have hall : ∀ c ∈ "+-.eENaIinfty".toList, Letter.isBlank c = false := by decide
    exact hall c (by simpa using h)

/-- The text begins and ends with characters that are no blanks, and goes on nothing. -/
structure Framed (s : List Char) : Prop where
  head : ∃ c m, s = c :: m ∧ Letter.isBlank c = false ∧ c ∉ [']', '\x7d']
  last : ∃ m c, s = m ++ [c] ∧ Letter.isBlank c = false

lemma Prints.framed (h : Prints P v s) : Framed s := by
  have hbracket : ∀ {a b : Char} (m : List Char), Letter.isBlank a = false → a ∉ [']', '\x7d'] →
      Letter.isBlank b = false → Framed (a :: (m ++ [b])) := fun {a b} m ha ha' hb =>
    ⟨⟨a, m ++ [b], rfl, ha, ha'⟩, ⟨a :: m, b, rfl, hb⟩⟩
  cases h with
  | null => exact hbracket ['u', 'l'] (by decide) (by decide) (by decide)
  | yes => exact hbracket ['r', 'u'] (by decide) (by decide) (by decide)
  | no => exact hbracket ['a', 'l', 's'] (by decide) (by decide) (by decide)
  | number h =>
    obtain ⟨hne, hchars⟩ := isNumberChar_of_readNumber h
    refine ⟨?_, ?_⟩
    · obtain ⟨c, m, rfl⟩ := List.exists_cons_of_ne_nil hne
      have hc := hchars c List.mem_cons_self
      refine ⟨c, m, rfl, isBlank_of_isNumberChar hc, ?_⟩
      simp only [List.mem_cons, List.not_mem_nil, or_false]
      rintro (rfl | rfl) <;> exact absurd hc (by decide)
    · obtain ⟨m, c, rfl⟩ := (List.eq_nil_or_concat s).resolve_left hne
      rw [List.concat_eq_append]
      exact ⟨m, c, rfl, isBlank_of_isNumberChar (hchars c (by simp))⟩
  | string => exact hbracket _ (by decide) (by decide) (by decide)
  | emptyArray => exact hbracket _ (by decide) (by decide) (by decide)
  | array => exact hbracket _ (by decide) (by decide) (by decide)
  | emptyObject => exact hbracket _ (by decide) (by decide) (by decide)
  | object => exact hbracket _ (by decide) (by decide) (by decide)

/-! ### Reading a printing -/

lemma skip_spaces {w : List Char} (hw : Spaces w) (s : List Char) : skip (w ++ s) = skip s := by
  exact List.dropWhile_append_of_pos hw

lemma skip_of_head {c : Char} (hc : isSpace c = false) (s : List Char) : skip (c :: s) = c :: s :=
  List.dropWhile_cons_of_neg (by simp [hc])

lemma Framed.skip_append (h : Framed s) (t : List Char) : skip (s ++ t) = s ++ t := by
  obtain ⟨c, m, rfl, hc, -⟩ := h.head
  refine skip_of_head ?_ _
  cases hspace : isSpace c with
  | false => rfl
  | true => exact absurd (isBlank_of_isSpace hspace) (by simp [hc])

lemma Stops.spaces_append {w : List Char} (hw : Spaces w) (ht : Stops t) : Stops (w ++ t) := by
  cases w with
  | nil => exact ht
  | cons c w =>
    rintro d hd
    obtain rfl := Option.some.inj hd
    exact .inl (hw c List.mem_cons_self)

lemma PrintsPadded.exists_head (h : PrintsPadded P v s) (t : List Char) :
    ∃ c m, skip (s ++ t) = c :: m ∧ isSpace c = false ∧ c ∉ [']', '\x7d'] := by
  cases h with
  | @mk _ w _ w' hw h hw' =>
    obtain ⟨c, m, rfl, hc, hc'⟩ := h.framed.head
    have hspace : isSpace c = false := by
      cases hspace : isSpace c with
      | false => rfl
      | true => exact absurd (isBlank_of_isSpace hspace) (by simp [hc])
    refine ⟨c, m ++ (w' ++ t), ?_, hspace, hc'⟩
    rw [List.append_assoc, skip_spaces hw, List.append_assoc, List.cons_append,
      skip_of_head hspace]

lemma PrintsItems.exists_head {vs : List Json} (h : PrintsItems P vs s) (t : List Char) :
    ∃ c m, skip (s ++ t) = c :: m ∧ isSpace c = false ∧ c ∉ [']', '\x7d'] := by
  cases h with
  | last h => exact h.exists_head t
  | more h _ =>
    rw [List.append_assoc]
    exact h.exists_head _

lemma PrintsEntries.exists_head {es : List (String × Json)} (h : PrintsEntries P es s)
    (t : List Char) : ∃ m, skip (s ++ t) = '"' :: m := by
  cases h with
  | last hw =>
    rw [List.append_assoc, skip_spaces hw, List.cons_append, skip_of_head (by decide)]
    exact ⟨_, rfl⟩
  | more hw =>
    rw [List.append_assoc, skip_spaces hw, List.cons_append, skip_of_head (by decide)]
    exact ⟨_, rfl⟩

lemma stops_cons {c : Char} (hc : c ∈ [',', ']', '\x7d']) (s : List Char) : Stops (c :: s) := by
  rintro d hd
  obtain rfl := Option.some.inj hd
  exact .inr hc

/-- A number does not begin like another value. -/
lemma exists_head_of_readNumber {x : Number} (h : readNumber s = some (x, [])) :
    ∃ c m, s = c :: m ∧ ∀ d ∈ ['"', '[', '\x7b', 'n', 't', 'f'], d ≠ c := by
  have hdigit : ∀ d ∈ ['"', '[', '\x7b', 'n', 't', 'f'], d.isDigit = false := by decide
  rcases readNumber_cases h with ⟨r, rfl, -⟩ | ⟨r, rfl, -⟩ | ⟨r, rfl, -⟩ |
    ⟨d, r, rfl, hd, -⟩ | ⟨d, r, rfl, hd, -⟩
  · exact ⟨'N', 'a' :: 'N' :: r, rfl, by decide⟩
  · exact ⟨'I', "nfinity".toList ++ r, rfl, by decide⟩
  · exact ⟨'-', "Infinity".toList ++ r, rfl, by decide⟩
  · exact ⟨'-', d :: r, rfl, by decide⟩
  · refine ⟨d, r, rfl, fun e he heq => ?_⟩
    rw [← heq, hdigit e he] at hd
    cases hd

lemma readValue_number {x : Number} (h : readNumber s = some (x, [])) (ht : Stops t) (n : Nat) :
    readValue (n + 1) (s ++ t) = some (.number x, t) := by
  have hnumber := readNumber_append ht h
  obtain ⟨c, m, rfl, hc⟩ := exists_head_of_readNumber h
  simp only [List.mem_cons, List.not_mem_nil, or_false, forall_eq_or_imp, forall_eq] at hc
  obtain ⟨hquote, hbracket, hbrace, hn, ht, hf⟩ := hc
  have hnull : Chars.after? "null".toList (c :: m ++ t) = none := by simp [Chars.after?, hn]
  have htrue : Chars.after? "true".toList (c :: m ++ t) = none := by simp [Chars.after?, ht]
  have hfalse : Chars.after? "false".toList (c :: m ++ t) = none := by simp [Chars.after?, hf]
  rw [readValue.eq_def]
  split
  · contradiction
  · next k _ heq =>
    split
    · next h => exact absurd (List.cons.inj h).1.symm hquote
    · next h => exact absurd (List.cons.inj h).1.symm hbracket
    · next h => exact absurd (List.cons.inj h).1.symm hbrace
    · rw [hnull, htrue, hfalse, hnumber]
      rfl

/-- The spaces in an empty list or object are skipped. -/
lemma skip_spaces_cons {w : List Char} (hw : Spaces w) {c : Char} (hc : isSpace c = false)
    (s : List Char) : skip (w ++ c :: s) = c :: s := by
  rw [skip_spaces hw, skip_of_head hc]

/-- A string is read with room for as many characters as the text has. -/
lemma readString_length {raw key : List Char} (h : Raw raw key) (t : List Char) :
    readString ('"' :: (raw ++ '"' :: t)).length [] (raw ++ '"' :: t) =
      some (String.ofList key, t) :=
  readString_of_raw h (by simp only [List.length_cons, List.length_append]; omega) [] t

lemma readValue_array {vs : List Json} {n : Nat} {rest : List Char}
    (hhead : ∃ c m, skip s = c :: m ∧ isSpace c = false ∧ c ∉ [']', '\x7d'])
    (hread : readItems n (skip s) = some (vs, rest)) :
    readValue (n + 1) ('[' :: s) = some (.array vs, rest) := by
  obtain ⟨c, m, hskip, -, hc⟩ := hhead
  rw [hskip] at hread
  have hne : c ≠ ']' := fun h => hc (by simp [h])
  rw [readValue, hskip]
  split
  · next h => exact absurd (List.cons.inj h).1 hne
  · rw [hread]
    rfl

lemma readValue_object {es : List (String × Json)} {n : Nat} {rest : List Char}
    (hhead : ∃ m, skip s = '"' :: m) (hread : readEntries n (skip s) = some (es, rest)) :
    readValue (n + 1) ('\x7b' :: s) = some (.object (Keyed.ofList es).entries, rest) := by
  obtain ⟨m, hskip⟩ := hhead
  rw [hskip] at hread
  rw [readValue, hskip]
  split
  · next h => exact absurd (List.cons.inj h).1 (by decide)
  · rw [hread]
    rfl

mutual

/-- A printing is read, whatever stands behind it. -/
theorem Prints.read {v : Json} {s : List Char} (h : Prints P v s) {t : List Char} (ht : Stops t)
    {n : Nat} (hn : s.length ≤ n) : readValue n (s ++ t) = some (v, t) := by
  obtain ⟨n, rfl⟩ : ∃ m, n = m + 1 := by
    obtain ⟨c, m, rfl, -⟩ := h.framed.head
    exact Nat.exists_eq_add_one.2 (Nat.lt_of_lt_of_le (by simp) hn)
  match h with
  | .null => rfl
  | .yes => rfl
  | .no => rfl
  | .number h => exact readValue_number h ht n
  | @Prints.string _ raw _ h _ =>
    have hread : readValue (n + 1) ('"' :: (raw ++ '"' :: t)) =
      (readString ('"' :: (raw ++ '"' :: t)).length [] (raw ++ '"' :: t)).map
        fun (key, rest) => (string key, rest) := rfl
    rw [List.cons_append, List.append_assoc, List.singleton_append, hread, readString_length h]
    rfl
  | .emptyArray hw =>
    rw [List.cons_append, List.append_assoc, readValue, List.singleton_append,
      skip_spaces_cons hw (by decide)]
    rfl
  | .array h =>
    rw [List.cons_append, List.append_assoc]
    exact readValue_array (h.exists_head _) (h.read t (by simp at hn; omega))
  | .emptyObject hw =>
    rw [List.cons_append, List.append_assoc, readValue, List.singleton_append,
      skip_spaces_cons hw (by decide)]
    rfl
  | .object h =>
    rw [List.cons_append, List.append_assoc]
    exact readValue_object (h.exists_head _) (h.read t (by simp at hn; omega))

theorem PrintsPadded.read {v : Json} {s : List Char} (h : PrintsPadded P v s) {t : List Char}
    (ht : Stops t) {n : Nat} (hn : s.length ≤ n) :
    ∃ u, readValue n (skip (s ++ t)) = some (v, u) ∧ skip u = skip t := by
  match h with
  | @PrintsPadded.mk _ _ w _ w' hw h hw' =>
    refine ⟨w' ++ t, ?_, skip_spaces hw' t⟩
    rw [List.append_assoc, skip_spaces hw, List.append_assoc, h.framed.skip_append]
    exact h.read (ht.spaces_append hw') (by simp at hn; omega)

theorem PrintsItems.read {vs : List Json} {s : List Char} (h : PrintsItems P vs s) (t : List Char)
    {n : Nat} (hn : s.length < n) : readItems n (skip (s ++ ']' :: t)) = some (vs, t) := by
  obtain ⟨n, rfl⟩ := Nat.exists_eq_succ_of_ne_zero (Nat.ne_zero_of_lt hn)
  match h with
  | .last h =>
    obtain ⟨u, hread, hskip⟩ := h.read (n := n) (stops_cons (c := ']') (by decide) t) (by omega)
    have hskip' : skip (']' :: t) = ']' :: t := skip_of_head (by decide) t
    rw [readItems, hread]
    simp only [hskip, hskip']
  | .more (t := rest) h hrest =>
    obtain ⟨u, hread, hskip⟩ := h.read (n := n) (stops_cons (c := ',') (by decide) (rest ++ ']' :: t))
      (by simp at hn; omega)
    have hskip' : skip (',' :: (rest ++ ']' :: t)) = ',' :: (rest ++ ']' :: t) :=
      skip_of_head (by decide) _
    have hitems := hrest.read t (n := n) (by simp at hn; omega)
    rw [List.append_assoc, List.cons_append, readItems, hread]
    simp only [hskip, hskip', hitems, Option.map_some]

theorem PrintsEntries.read {es : List (String × Json)} {s : List Char} (h : PrintsEntries P es s)
    (t : List Char) {n : Nat} (hn : s.length < n) :
    readEntries n (skip (s ++ '\x7d' :: t)) = some (es, t) := by
  obtain ⟨n, rfl⟩ := Nat.exists_eq_succ_of_ne_zero (Nat.ne_zero_of_lt hn)
  match h with
  | .last hw hkey _ hw' h =>
    obtain ⟨u, hread, hskip⟩ := h.read (n := n) (stops_cons (c := '\x7d') (by decide) t)
      (by simp at hn; omega)
    have hskip' : skip ('\x7d' :: t) = '\x7d' :: t := skip_of_head (by decide) t
    simp only [List.append_assoc, List.cons_append, skip_spaces_cons hw (by decide : isSpace '"' = false)]
    rw [readEntries, readString_length hkey]
    simp only [skip_spaces_cons hw' (by decide : isSpace ':' = false), hread, hskip, hskip']
  | .more (t := rest) hw hkey _ hw' h hrest =>
    obtain ⟨u, hread, hskip⟩ := h.read (n := n) (stops_cons (c := ',') (by decide)
      (rest ++ '\x7d' :: t)) (by simp at hn; omega)
    have hskip' : skip (',' :: (rest ++ '\x7d' :: t)) = ',' :: (rest ++ '\x7d' :: t) :=
      skip_of_head (by decide) _
    have hentries := hrest.read t (n := n) (by simp at hn; omega)
    simp only [List.append_assoc, List.cons_append, skip_spaces_cons hw (by decide : isSpace '"' = false)]
    rw [readEntries, readString_length hkey]
    simp only [skip_spaces_cons hw' (by decide : isSpace ':' = false), hread, hskip, hskip', hentries,
      Option.map_some]

end

/-- A printing is read as its value. -/
lemma read?_of_prints (h : Prints P v s) : read? s = some v := by
  have hskip := h.framed.skip_append []
  have hread := h.read (t := []) (fun c hc => nomatch hc) (Nat.le_succ s.length)
  rw [List.append_nil] at hskip hread
  rw [read?, hskip, hread]
  rfl

/-! ### Other line breaks -/

/-- A character that ends a line. -/
def isBreak (c : Char) : Bool :=
  c == '\n' || c == '\r'

/-- The second text is the first one with its lines broken and indented in another way: runs of
blanks with a line break in them are replaced by spaces. -/
inductive Respaced : List Char → List Char → Prop
  | nil : Respaced [] []
  | char (c : Char) {s t : List Char} (h : Respaced s t) : Respaced (c :: s) (c :: t)
  | gap {w w' s t : List Char} (hw : ∀ c ∈ w, Letter.isBlank c = true)
    (hbreak : ∃ c ∈ w, isBreak c = true) (hw' : Spaces w') (h : Respaced s t) :
    Respaced (w ++ s) (w' ++ t)

namespace Respaced

lemma refl (s : List Char) : Respaced s s := by
  induction s with
  | nil => exact .nil
  | cons c s ih => exact .char c ih

lemma append {a a' b b' : List Char} (ha : Respaced a a') (hb : Respaced b b') :
    Respaced (a ++ b) (a' ++ b') := by
  induction ha with
  | nil => exact hb
  | char c _ ih => exact .char c ih
  | gap hw hbreak hw' _ ih =>
    rw [List.append_assoc, List.append_assoc]
    exact .gap hw hbreak hw' ih

/-- Blanks lie on one side of a place with something else on its other side. -/
lemma exists_append {a b t : List Char} (h : Respaced (a ++ b) t)
    (hplace : (∀ c ∈ a.getLast?, Letter.isBlank c = false) ∨
      ∀ c ∈ b.head?, Letter.isBlank c = false) :
    ∃ a' b', t = a' ++ b' ∧ Respaced a a' ∧ Respaced b b' := by
  generalize hs : a ++ b = s at h
  induction h generalizing a with
  | nil =>
    obtain ⟨rfl, rfl⟩ := List.append_eq_nil_iff.1 hs
    exact ⟨[], [], rfl, .nil, .nil⟩
  | @char c s t h ih =>
    cases a with
    | nil =>
      obtain rfl := hs
      exact ⟨[], c :: t, rfl, .nil, .char c h⟩
    | cons d a =>
      obtain ⟨rfl, rfl⟩ := List.cons.inj hs
      obtain ⟨a', b', rfl, ha, hb⟩ := ih (a := a) (hplace.imp_left fun hlast e he => hlast e (by
        cases a with
        | nil => cases he
        | cons _ _ => simpa using he)) rfl
      exact ⟨d :: a', b', rfl, .char d ha, hb⟩
  | @gap w w' s t hw hbreak hw' h ih =>
    rcases List.append_eq_append_iff.1 hs with ⟨m, rfl, rfl⟩ | ⟨m, rfl, rfl⟩
    · -- the run of blanks goes on behind the place, so all of it lies there
      rcases List.eq_nil_or_concat a with rfl | ⟨x, c, rfl⟩
      · exact ⟨[], w' ++ t, rfl, .nil, .gap hw hbreak hw' h⟩
      · have hc : Letter.isBlank c = true := hw c (by simp)
        cases m with
        | nil =>
          rw [List.append_nil] at hw hbreak
          have hgap := Respaced.gap hw hbreak hw' .nil
          rw [List.append_nil, List.append_nil] at hgap
          exact ⟨w', t, rfl, hgap, h⟩
        | cons d m =>
          have hd : Letter.isBlank d = true := hw d (by simp)
          rcases hplace with hplace | hplace
          · rw [hplace c (by simp)] at hc
            cases hc
          · rw [hplace d (by simp)] at hd
            cases hd
    · obtain ⟨a', b', rfl, ha, hb⟩ := ih (a := m)
        (hplace.imp_left fun hlast e he => hlast e (by
          rw [List.getLast?_append, Option.mem_def.1 he, Option.some_or]
          rfl)) rfl
      exact ⟨w' ++ a', b', by rw [List.append_assoc], .gap hw hbreak hw' ha, hb⟩

/-- Without a line break nothing changes. -/
lemma eq_of_noBreak {s t : List Char} (h : Respaced s t) (hs : ∀ c ∈ s, isBreak c = false) :
    t = s := by
  induction h with
  | nil => rfl
  | char c _ ih => rw [ih fun d hd => hs d (List.mem_cons_of_mem _ hd)]
  | gap _ hbreak =>
    obtain ⟨c, hc, hcbreak⟩ := hbreak
    rw [hs c (List.mem_append_left _ hc)] at hcbreak
    cases hcbreak

lemma spaces {s t : List Char} (h : Respaced s t) (hs : Spaces s) : Spaces t := by
  induction h with
  | nil => exact hs
  | char c _ ih =>
    obtain ⟨hc, hs⟩ := List.forall_mem_cons.1 hs
    exact List.forall_mem_cons.2 ⟨hc, ih hs⟩
  | gap _ _ hw' _ ih =>
    exact List.forall_mem_append.2 ⟨hw', ih (List.forall_mem_append.1 hs).2⟩

lemma cons_inv {c : Char} {s t : List Char} (h : Respaced (c :: s) t)
    (hc : Letter.isBlank c = false) : ∃ t', t = c :: t' ∧ Respaced s t' := by
  generalize hcs : c :: s = u at h
  cases h with
  | nil => cases hcs
  | char d h =>
    obtain ⟨rfl, rfl⟩ := List.cons.inj hcs
    exact ⟨_, rfl, h⟩
  | @gap w _ _ _ hw hbreak _ _ =>
    -- the run of blanks is not empty, so it would begin with the character
    cases w with
    | nil =>
      obtain ⟨_, hmem, -⟩ := hbreak
      cases hmem
    | cons d w =>
      obtain ⟨rfl, -⟩ := List.cons.inj hcs
      rw [hw c List.mem_cons_self] at hc
      cases hc

/-- A text is cut at a character that is no blank. -/
lemma cut {a b t : List Char} {c : Char} (h : Respaced (a ++ c :: b) t)
    (hc : Letter.isBlank c = false) :
    ∃ a' b', t = a' ++ c :: b' ∧ Respaced a a' ∧ Respaced b b' := by
  obtain ⟨a', t', rfl, ha, ht⟩ := h.exists_append (.inr fun d hd => by
    obtain rfl := Option.some.inj hd
    exact hc)
  obtain ⟨b', rfl, hb⟩ := ht.cons_inv hc
  exact ⟨a', b', rfl, ha, hb⟩

lemma bracket_inv {a b : Char} {s t : List Char} (h : Respaced (a :: (s ++ [b])) t)
    (ha : Letter.isBlank a = false) (hb : Letter.isBlank b = false) :
    ∃ s', t = a :: (s' ++ [b]) ∧ Respaced s s' := by
  obtain ⟨t', rfl, ht⟩ := h.cons_inv ha
  obtain ⟨s', r, rfl, hs, hr⟩ := ht.cut hb
  rw [hr.eq_of_noBreak fun c hc => nomatch hc]
  exact ⟨s', rfl, hs⟩

end Respaced

lemma isBlank_of_isBreak {c : Char} (h : isBreak c = true) : Letter.isBlank c = true := by
  simp only [isBreak, Bool.or_eq_true, beq_iff_eq] at h
  rcases h with rfl | rfl <;> decide

lemma noBreak_of_isNumberChar {c : Char} (h : isNumberChar c = true) : isBreak c = false := by
  cases hbreak : isBreak c with
  | false => rfl
  | true => exact absurd (isBlank_of_isBreak hbreak) (by simp [isBlank_of_isNumberChar h])

lemma noBreak_of_hex4? {ds : List Char} {n : Nat} (h : hex4? ds = some (n, [])) :
    ∀ c ∈ ds, isBreak c = false := by
  have hdigit : ∀ c m, hexDigit? c = some m → isBreak c = false := by
    intro c m hc
    cases hbreak : isBreak c with
    | false => rfl
    | true =>
      simp only [isBreak, Bool.or_eq_true, beq_iff_eq] at hbreak
      rcases hbreak with rfl | rfl <;> cases hc
  match ds with
  | [] | [_] | [_, _] | [_, _, _] => simp [hex4?] at h
  | a :: b :: c :: d :: s =>
    simp only [hex4?, Option.bind_eq_bind, Option.bind_eq_some_iff, Option.some.injEq,
      Prod.mk.injEq] at h
    obtain ⟨a, ha, b, hb, c, hc, d, hd, -, rfl⟩ := h
    simp [hdigit _ _ ha, hdigit _ _ hb, hdigit _ _ hc, hdigit _ _ hd]

/-- A string is written in one line. -/
lemma Raw.noBreak {raw key : List Char} (h : Raw raw key) : ∀ c ∈ raw, isBreak c = false := by
  induction h with
  | nil => exact fun _ h => nomatch h
  | plain _ _ hcode _ ih =>
    refine List.forall_mem_cons.2 ⟨?_, ih⟩
    simp only [isBreak, Bool.or_eq_false_iff, beq_eq_false_iff_ne]
    constructor <;>
    · rintro rfl
      exact absurd hcode (by decide)
  | @escape e c _ _ he _ ih =>
    refine List.forall_mem_cons.2 ⟨by decide, List.forall_mem_cons.2 ⟨?_, ih⟩⟩
    simp only [isBreak, Bool.or_eq_false_iff, beq_eq_false_iff_ne]
    constructor <;>
    · rintro rfl
      cases he
  | code hn _ _ ih =>
    refine List.forall_mem_cons.2 ⟨by decide, List.forall_mem_cons.2 ⟨by decide, ?_⟩⟩
    exact List.forall_mem_append.2 ⟨noBreak_of_hex4? hn, ih⟩
  | pair hm _ hn _ _ ih =>
    refine List.forall_mem_cons.2 ⟨by decide, List.forall_mem_cons.2 ⟨by decide, ?_⟩⟩
    refine List.forall_mem_append.2 ⟨noBreak_of_hex4? hm, ?_⟩
    refine List.forall_mem_cons.2 ⟨by decide, List.forall_mem_cons.2 ⟨by decide, ?_⟩⟩
    exact List.forall_mem_append.2 ⟨noBreak_of_hex4? hn, ih⟩

lemma Raw.noBreak_quoted {raw key : List Char} (h : Raw raw key) :
    ∀ c ∈ '"' :: (raw ++ ['"']), isBreak c = false := by
  refine List.forall_mem_cons.2 ⟨by decide, List.forall_mem_append.2 ⟨h.noBreak, ?_⟩⟩
  exact List.forall_mem_singleton.2 (by decide)

lemma Framed.head? (h : Framed s) (t : List Char) :
    ∀ c ∈ (s ++ t).head?, Letter.isBlank c = false := by
  obtain ⟨c, m, rfl, hc, -⟩ := h.head
  rintro d hd
  obtain rfl := Option.some.inj hd
  exact hc

lemma Framed.getLast? (h : Framed s) : ∀ c ∈ s.getLast?, Letter.isBlank c = false := by
  obtain ⟨m, c, rfl, hc⟩ := h.last
  rintro d hd
  rw [List.getLast?_concat] at hd
  obtain rfl := Option.some.inj hd
  exact hc

mutual

/-- With its lines broken in another way a printing is one of the same value. -/
theorem Prints.respaced {v : Json} {s t : List Char} (h : Prints P v s) (hst : Respaced s t) :
    Prints P v t := by
  match h with
  | .null =>
    rw [hst.eq_of_noBreak (by decide)]
    exact .null
  | .yes =>
    rw [hst.eq_of_noBreak (by decide)]
    exact .yes
  | .no =>
    rw [hst.eq_of_noBreak (by decide)]
    exact .no
  | .number h =>
    rw [hst.eq_of_noBreak fun c hc => noBreak_of_isNumberChar ((isNumberChar_of_readNumber h).2 c hc)]
    exact .number h
  | .string h hraw =>
    rw [hst.eq_of_noBreak h.noBreak_quoted]
    exact .string h hraw
  | .emptyArray hw =>
    obtain ⟨w', rfl, hw'⟩ := hst.bracket_inv (by decide) (by decide)
    exact .emptyArray (hw'.spaces hw)
  | .array h =>
    obtain ⟨s', rfl, hs⟩ := hst.bracket_inv (by decide) (by decide)
    exact .array (h.respaced hs)
  | .emptyObject hw =>
    obtain ⟨w', rfl, hw'⟩ := hst.bracket_inv (by decide) (by decide)
    exact .emptyObject (hw'.spaces hw)
  | .object h =>
    obtain ⟨s', rfl, hs⟩ := hst.bracket_inv (by decide) (by decide)
    exact .object (h.respaced hs)

theorem PrintsPadded.respaced {v : Json} {s t : List Char} (h : PrintsPadded P v s)
    (hst : Respaced s t) : PrintsPadded P v t := by
  match h with
  | .mk hw h hw' =>
    obtain ⟨u, r, rfl, hu, hr⟩ := hst.exists_append (.inr (h.framed.head? _))
    obtain ⟨s', u', rfl, hs, hu'⟩ := hr.exists_append (.inl h.framed.getLast?)
    exact .mk (hu.spaces hw) (h.respaced hs) (hu'.spaces hw')

theorem PrintsItems.respaced {vs : List Json} {s t : List Char} (h : PrintsItems P vs s)
    (hst : Respaced s t) : PrintsItems P vs t := by
  match h with
  | .last h => exact .last (h.respaced hst)
  | .more h hrest =>
    obtain ⟨s', r, rfl, hs, hr⟩ := hst.cut (by decide)
    exact .more (h.respaced hs) (hrest.respaced hr)

theorem PrintsEntries.respaced {es : List (String × Json)} {s t : List Char}
    (h : PrintsEntries P es s) (hst : Respaced s t) : PrintsEntries P es t := by
  match h with
  | .last hw hkey hraw hw' h =>
    obtain ⟨u, r, rfl, hu, hr⟩ := hst.cut (by decide)
    obtain ⟨raw, r, rfl, hs, hr⟩ := hr.cut (by decide)
    obtain ⟨u', r, rfl, hu', hr⟩ := hr.cut (by decide)
    rw [hs.eq_of_noBreak hkey.noBreak]
    exact .last (hu.spaces hw) hkey hraw (hu'.spaces hw') (h.respaced hr)
  | .more hw hkey hraw hw' h hrest =>
    obtain ⟨u, r, rfl, hu, hr⟩ := hst.cut (by decide)
    obtain ⟨raw, r, rfl, hs, hr⟩ := hr.cut (by decide)
    obtain ⟨u', r, rfl, hu', hr⟩ := hr.cut (by decide)
    obtain ⟨s', r, rfl, hs', hr⟩ := hr.cut (by decide)
    rw [hs.eq_of_noBreak hkey.noBreak]
    exact .more (hu.spaces hw) hkey hraw (hu'.spaces hw') (h.respaced hs') (hrest.respaced hr)

end

end Json
end UmlDraw
