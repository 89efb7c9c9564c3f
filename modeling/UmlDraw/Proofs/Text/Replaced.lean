/-
# What stands in a written text

The written form of a text inside an attribute has no angle brackets and no quotation mark, and
its end is the written form of the end of the text.

A text can also be written by replacing the special characters one after the other, the ampersand
first, and read by replacing the written forms one after the other, the ampersand last.  Nothing
that is put in is replaced again, so this comes to the same as going through the text once.

The main statements are

* `Escape.not_mem_escapeChars`: no special character but the ampersand stands in a written text;
* `Escape.escapeChars_eq_append`: an end that is `Plain` is the end of the text itself;
* `Escape.isWord_getLast?_escapeChars`: a written text ends inside a word if and only if the text
  does;
* `Escape.escapeChars_eq_replaceAll`: a text is written in seven replacements;
* `Escape.unescapeChars_eq_replaceAll`: a text is read in nine;
* `Escape.unambiguous_escape`: every ampersand of a written text begins one written form, and texts
  with equal written forms are equal.
-/
import Mathlib.Logic.ExistsUnique
import Mathlib.Tactic.Lemma
import UmlDraw.Drawing.Escape
import UmlDraw.Proofs.Text.Search

namespace UmlDraw

/-- Whether all characters of a text have a property is decided along the text, not for every
character there is. -/
instance (priority := high) Chars.decidableAll (p : Char → Prop) [DecidablePred p]
    (s : List Char) : Decidable (∀ c ∈ s, p c) :=
  List.decidableBAll p s

namespace Escape

/-- The characters that do not stand for themselves. -/
def special : List Char := ['&', '<', '>', '"', '\'', '\n', '\r']

lemma char_of_not_special {c : Char} (h : c ∉ special) : char c = [c] := by
  simp only [special, List.mem_cons, List.not_mem_nil, or_false, not_or] at h
  obtain ⟨h1, h2, h3, h4, h5, h6, h7⟩ := h
  unfold char
  split
  case h_8 => rfl
  all_goals contradiction

/-- The written form of a special character ends with a semicolon. -/
lemma char_of_special {c : Char} (h : c ∈ special) :
    ∃ body, char c = body ++ [';'] ∧ ∀ d ∈ body, d ∉ special ∨ d = '&' := by
  simp only [special, List.mem_cons, List.not_mem_nil, or_false] at h
  rcases h with rfl | rfl | rfl | rfl | rfl | rfl | rfl
  · exact ⟨['&', 'a', 'm', 'p'], by decide, by simp [special]⟩
  · exact ⟨['&', 'l', 't'], by decide, by simp [special]⟩
  · exact ⟨['&', 'g', 't'], by decide, by simp [special]⟩
  · exact ⟨['&', 'q', 'u', 'o', 't'], by decide, by simp [special]⟩
  · exact ⟨['&', 'a', 'p', 'o', 's'], by decide, by simp [special]⟩
  · exact ⟨['&', '#', 'x', 'a'], by decide, by simp [special]⟩
  · exact ⟨['&', '#', 'x', 'd'], by decide, by simp [special]⟩

@[simp] lemma escapeChars_nil : escapeChars [] = [] := rfl

lemma escapeChars_append (s t : List Char) :
    escapeChars (s ++ t) = escapeChars s ++ escapeChars t := by
  simp [escapeChars]

lemma escapeChars_injective {s t : List Char} (h : escapeChars s = escapeChars t) : s = t := by
  rw [← unescapeChars_escapeChars s, h, unescapeChars_escapeChars]

lemma mem_escapeChars {d : Char} {s : List Char} (h : d ∈ escapeChars s) :
    d ∉ special ∨ d = '&' := by
  obtain ⟨c, -, hd⟩ := List.mem_flatMap.1 h
  by_cases hc : c ∈ special
  · obtain ⟨body, hbody, hall⟩ := char_of_special hc
    rw [hbody] at hd
    rcases List.mem_append.1 hd with hd | hd
    · exact hall d hd
    · obtain rfl := List.mem_singleton.1 hd
      exact Or.inl (by decide)
  · rw [char_of_not_special hc] at hd
    obtain rfl := List.mem_singleton.1 hd
    exact Or.inl hc

/-- No special character but the ampersand stands in a written text. -/
lemma not_mem_escapeChars {d : Char} (hd : d ∈ special) (hamp : d ≠ '&') (s : List Char) :
    d ∉ escapeChars s := by
  intro h
  rcases mem_escapeChars h with h | h
  · exact h hd
  · exact hamp h

lemma quote_not_mem_escapeChars (s : List Char) : '"' ∉ escapeChars s :=
  not_mem_escapeChars (by decide) (by decide) s

lemma lt_not_mem_escapeChars (s : List Char) : '<' ∉ escapeChars s :=
  not_mem_escapeChars (by decide) (by decide) s

lemma gt_not_mem_escapeChars (s : List Char) : '>' ∉ escapeChars s :=
  not_mem_escapeChars (by decide) (by decide) s

lemma escapeChars_eq_nil_iff {s : List Char} : escapeChars s = [] ↔ s = [] := by
  constructor
  · intro h
    exact escapeChars_injective (by rw [h, escapeChars_nil])
  · rintro rfl
    rfl

/-! ### The end of a written text -/

/-- The last character of a written text, unless it is a semicolon, stands for itself. -/
lemma escapeChars_eq_concat {t y : List Char} {c : Char} (hc : c ≠ ';')
    (h : escapeChars t = y ++ [c]) : ∃ x, t = x ++ [c] ∧ y = escapeChars x := by
  rcases List.eq_nil_or_concat t with rfl | ⟨x, d, rfl⟩
  · simp at h
  · rw [List.concat_eq_append, escapeChars_append] at h
    by_cases hd : d ∈ special
    · -- a written form ends with a semicolon
      obtain ⟨body, hbody, -⟩ := char_of_special hd
      have hlast := congrArg List.getLast? h
      simp only [escapeChars, List.flatMap_cons, List.flatMap_nil, List.append_nil, hbody,
        List.getLast?_append, List.getLast?_singleton, Option.some_or, Option.some.injEq] at hlast
      exact absurd hlast.symm hc
    · have hone : escapeChars [d] = [d] := by
        simp [escapeChars, char_of_not_special hd]
      rw [hone] at h
      obtain ⟨hy, hcd⟩ := List.append_inj' h rfl
      obtain rfl := List.singleton_inj.1 hcd
      exact ⟨x, by simp, hy.symm⟩

/-- A text that stands for itself, and whose last character does not end a written form. -/
def Plain (a : List Char) : Prop :=
  ∀ c ∈ a, c ∉ special ∧ c ≠ ';'

instance (a : List Char) : Decidable (Plain a) :=
  List.decidableBAll _ a

lemma plain_cons {c : Char} {a : List Char} :
    Plain (c :: a) ↔ (c ∉ special ∧ c ≠ ';') ∧ Plain a :=
  List.forall_mem_cons

lemma escapeChars_of_plain {a : List Char} (ha : Plain a) : escapeChars a = a := by
  induction a with
  | nil => rfl
  | cons c a ih =>
    obtain ⟨⟨hspecial, -⟩, ha⟩ := plain_cons.1 ha
    have hc := char_of_not_special hspecial
    have := ih ha
    rw [escapeChars, List.flatMap_cons, hc]
    simpa [escapeChars] using this

lemma escapeChars_eq_append {t y a : List Char} (ha : Plain a)
    (h : escapeChars t = y ++ a) : ∃ x, t = x ++ a ∧ y = escapeChars x := by
  induction a generalizing y with
  | nil => exact ⟨t, by simp, by simpa using h.symm⟩
  | cons c a ih =>
    obtain ⟨⟨-, hsemi⟩, ha⟩ := plain_cons.1 ha
    -- the rest comes off first, so that the character stands at the end of what is left
    obtain ⟨x, rfl, hx⟩ := ih (y := y ++ [c]) ha (by simpa using h)
    obtain ⟨z, rfl, hz⟩ := escapeChars_eq_concat hsemi hx.symm
    exact ⟨z, by simp, hz⟩

lemma suffix_escapeChars_iff {a t : List Char} (ha : Plain a) : a <:+ escapeChars t ↔ a <:+ t := by
  constructor
  · rintro ⟨y, hy⟩
    obtain ⟨x, rfl, -⟩ := escapeChars_eq_append ha hy.symm
    exact ⟨x, rfl⟩
  · rintro ⟨x, rfl⟩
    exact ⟨escapeChars x, by rw [escapeChars_append, escapeChars_of_plain ha]⟩

/-- Whether a written text ends inside a word. -/
lemma isWord_getLast?_escapeChars (x : List Char) :
    (escapeChars x).getLast?.any Letter.isWord = x.getLast?.any Letter.isWord := by
  rcases List.eq_nil_or_concat x with rfl | ⟨x, d, rfl⟩
  · rfl
  · rw [List.concat_eq_append, escapeChars_append]
    by_cases hd : d ∈ special
    · obtain ⟨body, hbody, -⟩ := char_of_special hd
      have hword : Letter.isWord d = false := by
        revert hd
        simp only [special, List.mem_cons, List.not_mem_nil, or_false]
        rintro (rfl | rfl | rfl | rfl | rfl | rfl | rfl) <;> decide
      have hsemi : Letter.isWord ';' = false := by decide
      simp [escapeChars, hbody, hword, hsemi]
    · simp [escapeChars, char_of_not_special hd]

end Escape

/-! ### One replacement after the other -/

namespace Chars

lemma after?_eq_some_iff {a s t : List Char} : after? a s = some t ↔ s = a ++ t := by
  constructor
  · intro h
    induction a generalizing s with
    | nil => simpa using h
    | cons b a ih =>
      cases s with
      | nil => cases h
      | cons c s =>
        rw [after?] at h
        split at h
        · next hbc => rw [hbc, ih h, List.cons_append]
        · cases h
  · rintro rfl
    exact after?_append a t

lemma isSome_after?_iff {a s : List Char} : (after? a s).isSome = true ↔ a <+: s := by
  rw [Option.isSome_iff_exists]
  constructor
  · rintro ⟨t, ht⟩
    exact ⟨t, (after?_eq_some_iff.1 ht).symm⟩
  · rintro ⟨t, ht⟩
    exact ⟨t, after?_eq_some_iff.2 ht.symm⟩

lemma replaceFrom_eq_drop (pattern new : List Char) (skip : Nat) (s : List Char) :
    replaceFrom pattern new skip s = replaceFrom pattern new 0 (s.drop skip) := by
  induction s generalizing skip with
  | nil => cases skip <;> rfl
  | cons c s ih =>
    cases skip with
    | zero => rfl
    | succ skip => rw [replaceFrom, ih skip, List.drop_succ_cons]

/-- Replacing a single character. -/
lemma replaceAll_singleton (c : Char) (new s : List Char) :
    replaceAll [c] new s = s.flatMap fun d => if d = c then new else [d] := by
  rw [replaceAll, if_neg (by simp)]
  induction s with
  | nil => rfl
  | cons d s ih =>
    rw [replaceFrom, List.flatMap_cons]
    by_cases hd : d = c
    · rw [if_pos (by simp [after?, hd]), if_pos hd, ← ih]
      rfl
    · rw [if_neg (by simp [after?, Ne.symm hd]), if_neg hd, ih, List.singleton_append]

lemma flatMap_replace_of_not_mem {c : Char} {new s : List Char} (h : c ∉ s) :
    (s.flatMap fun d => if d = c then new else [d]) = s := by
  induction s with
  | nil => rfl
  | cons d s ih =>
    rw [List.mem_cons, not_or] at h
    rw [List.flatMap_cons, if_neg (Ne.symm h.1), ih h.2, List.singleton_append]

end Chars

namespace Escape

/-! ### Writing -/

/-- The written form of a text in which only some special characters are replaced. -/
def escapeOnly (cs s : List Char) : List Char :=
  s.flatMap fun c => if c ∈ cs then char c else [c]

/-- A character that stands in none of the written forms so far is replaced as well. -/
lemma replaceAll_escapeOnly {cs : List Char} {d : Char} (hcs : ∀ c ∈ cs, d ∉ char c)
    (s : List Char) :
    Chars.replaceAll [d] (char d) (escapeOnly cs s) = escapeOnly (cs ++ [d]) s := by
  rw [Chars.replaceAll_singleton, escapeOnly, escapeOnly, List.flatMap_assoc]
  congr 1
  funext c
  by_cases hc : c ∈ cs
  · rw [if_pos hc, if_pos (List.mem_append_left _ hc)]
    exact Chars.flatMap_replace_of_not_mem (hcs c hc)
  · rw [if_neg hc, List.flatMap_singleton]
    by_cases hcd : c = d
    · rw [if_pos hcd, if_pos (by simp [hcd]), hcd]
    · rw [if_neg hcd, if_neg (by simp [hc, hcd])]

/-- The replacements so far, and those that follow. -/
lemma foldl_escapeOnly {cs ds : List Char} (s : List Char)
    (h : (cs ++ ds).Pairwise fun c d => d ∉ char c) :
    ds.foldl (fun s c => Chars.replaceAll [c] (char c) s) (escapeOnly cs s) =
      escapeOnly (cs ++ ds) s := by
  induction ds generalizing cs with
  | nil => rw [List.foldl_nil, List.append_nil]
  | cons d ds ih =>
    have hd := (List.pairwise_append.1 h).2.2
    have hcs : ∀ c ∈ cs, d ∉ char c := fun c hc => hd c hc d List.mem_cons_self
    rw [List.foldl_cons, replaceAll_escapeOnly hcs]
    have hassoc : cs ++ d :: ds = cs ++ [d] ++ ds := List.append_cons cs d ds
    rw [hassoc] at h ⊢
    exact ih h

/-- A text is written by seven replacements, the ampersand first. -/
theorem escapeChars_eq_replaceAll (s : List Char) :
    escapeChars s = special.foldl (fun s c => Chars.replaceAll [c] (char c) s) s := by
  have hnone : escapeOnly [] s = s := by
    simp [escapeOnly]
  have hall : escapeOnly special s = escapeChars s := by
    unfold escapeOnly escapeChars
    congr 1
    funext c
    split
    · rfl
    · next hc => exact (char_of_not_special hc).symm
  have hfold : special.foldl (fun s c => Chars.replaceAll [c] (char c) s) (escapeOnly [] s) =
      escapeOnly ([] ++ special) s := foldl_escapeOnly s (by decide)
  rw [hnone, List.nil_append, hall] at hfold
  exact hfold.symm

/-! ### Reading -/

/-- The entry of a table whose name stands at the front of a text. -/
def find (es : List (List Char × Char)) (s : List Char) : Option (List Char × Char) :=
  es.find? fun e => (Chars.after? e.1 s).isSome

/-- Reads a text back with a table of written forms, as `unescapeFrom` does with all of them. -/
def readFrom (es : List (List Char × Char)) : Nat → List Char → List Char
  | _, [] => []
  | skip + 1, _ :: s => readFrom es skip s
  | 0, c :: s =>
    if c = '&' then
      match find es s with
      | some e => e.2 :: readFrom es e.1.length s
      | none => c :: readFrom es 0 s
    else c :: readFrom es 0 s

lemma readFrom_eq_drop (es : List (List Char × Char)) (skip : Nat) (s : List Char) :
    readFrom es skip s = readFrom es 0 (s.drop skip) := by
  induction s generalizing skip with
  | nil => cases skip <;> rfl
  | cons c s ih =>
    cases skip with
    | zero => rfl
    | succ skip => rw [readFrom, ih skip, List.drop_succ_cons]

lemma readFrom_of_find {es : List (List Char × Char)} {e : List Char × Char} {s : List Char}
    (h : find es s = some e) :
    readFrom es 0 ('&' :: s) = e.2 :: readFrom es 0 (s.drop e.1.length) := by
  rw [readFrom, if_pos rfl, h, ← readFrom_eq_drop]

lemma readFrom_of_find_eq_none {es : List (List Char × Char)} {s : List Char}
    (h : find es s = none) : readFrom es 0 ('&' :: s) = '&' :: readFrom es 0 s := by
  rw [readFrom, if_pos rfl, h]

lemma readFrom_of_ne (es : List (List Char × Char)) {c : Char} (hc : c ≠ '&') (s : List Char) :
    readFrom es 0 (c :: s) = c :: readFrom es 0 s := by
  rw [readFrom, if_neg hc]

/-- A name without ampersands and without what is put in stands at the front of a text that is read
in part if and only if it stands there in the text. -/
lemma after?_readFrom {es : List (List Char × Char)} {name : List Char} (hamp : '&' ∉ name)
    (hes : ∀ e ∈ es, e.2 ∉ name) (s : List Char) :
    Chars.after? name (readFrom es 0 s) = (Chars.after? name s).map (readFrom es 0) := by
  induction name generalizing s with
  | nil => simp
  | cons a name ih =>
    rw [List.mem_cons, not_or] at hamp
    have ih := ih hamp.2 fun e he hmem => hes e he (List.mem_cons_of_mem a hmem)
    cases s with
    | nil => rfl
    | cons c s =>
      rw [Chars.after?]
      by_cases hc : c = '&'
      · -- neither the ampersand nor what is put in for it stands in the name
        subst hc
        rw [if_neg (Ne.symm hamp.1)]
        cases hfind : find es s with
        | none =>
          rw [readFrom_of_find_eq_none hfind, Chars.after?, if_neg (Ne.symm hamp.1)]
          rfl
        | some e =>
          have hput := hes e (List.mem_of_find?_eq_some hfind)
          rw [List.mem_cons, not_or] at hput
          rw [readFrom_of_find hfind, Chars.after?, if_neg (Ne.symm hput.1)]
          rfl
      · rw [readFrom_of_ne es hc, Chars.after?]
        split
        · exact ih s
        · rfl

lemma drop_readFrom {es : List (List Char × Char)} {name s : List Char} (hamp : '&' ∉ name)
    (hes : ∀ e ∈ es, e.2 ∉ name) (hname : (Chars.after? name s).isSome = true) :
    (readFrom es 0 s).drop name.length = readFrom es 0 (s.drop name.length) := by
  obtain ⟨rest, hrest⟩ := Option.isSome_iff_exists.1 hname
  have hread := after?_readFrom hamp hes s
  rw [hrest, Option.map_some] at hread
  rw [Chars.after?_eq_some_iff.1 hread, Chars.after?_eq_some_iff.1 hrest, List.drop_left,
    List.drop_left]

lemma find_concat (es : List (List Char × Char)) (e : List Char × Char) (s : List Char) :
    find (es ++ [e]) s =
      (find es s).or (if (Chars.after? e.1 s).isSome then some e else none) := by
  rw [find, List.find?_append, ← find, List.find?_cons]
  cases (Chars.after? e.1 s).isSome with
  | true => rfl
  | false => rfl

/-- The written form of one more character is replaced in a text that is read in part. -/
lemma replaceAll_readFrom {es : List (List Char × Char)} {e : List Char × Char}
    (hamp : '&' ∉ e.1) (hes : ∀ d ∈ es, d.2 ∉ e.1 ∧ d.2 ≠ '&') (s : List Char) :
    Chars.replaceAll ('&' :: e.1) [e.2] (readFrom es 0 s) = readFrom (es ++ [e]) 0 s := by
  rw [Chars.replaceAll, if_neg (by simp)]
  have hpass : ∀ d t, d ≠ '&' → Chars.replaceFrom ('&' :: e.1) [e.2] 0 (d :: t) =
      d :: Chars.replaceFrom ('&' :: e.1) [e.2] 0 t := by
    intro d t hd
    rw [Chars.replaceFrom, if_neg (by simp [Chars.after?, Ne.symm hd])]
  -- by length, since a written form that is replaced is passed over as a whole
  induction hlength : s.length using Nat.strongRecOn generalizing s with
  | _ n ih =>
    have ih : ∀ t : List Char, t.length < s.length →
        Chars.replaceFrom ('&' :: e.1) [e.2] 0 (readFrom es 0 t) = readFrom (es ++ [e]) 0 t :=
      fun t ht => ih t.length (hlength ▸ ht) t rfl
    cases s with
    | nil => rfl
    | cons c s =>
      by_cases hc : c = '&'
      · subst hc
        have hlt : ∀ k, (s.drop k).length < ('&' :: s).length := by
          intro k
          simp only [List.length_drop, List.length_cons]
          omega
        cases hfind : find es s with
        | some d =>
          have hd := hes d (List.mem_of_find?_eq_some hfind)
          have hfind' : find (es ++ [e]) s = some d := by
            rw [find_concat, hfind, Option.some_or]
          rw [readFrom_of_find hfind, hpass _ _ hd.2, readFrom_of_find hfind', ih _ (hlt _)]
        | none =>
          have hput : ∀ d ∈ es, d.2 ∉ e.1 := fun d hd => (hes d hd).1
          have hfind' := find_concat es e s
          rw [hfind, Option.none_or] at hfind'
          rw [readFrom_of_find_eq_none hfind, Chars.replaceFrom, Chars.after?, if_pos rfl,
            after?_readFrom hamp hput, Option.isSome_map]
          by_cases hname : (Chars.after? e.1 s).isSome = true
          · rw [if_pos hname] at hfind' ⊢
            rw [readFrom_of_find hfind', Chars.replaceFrom_eq_drop, List.length_cons,
              Nat.add_sub_cancel, drop_readFrom hamp hput hname, ih _ (hlt _)]
            rfl
          · rw [if_neg hname] at hfind' ⊢
            rw [readFrom_of_find_eq_none hfind', ih s (by simp)]
      · rw [readFrom_of_ne es hc, hpass c _ hc, ih s (by simp), readFrom_of_ne _ hc]

/-- The written forms in the order in which they are replaced when a text is read. -/
def readingOrder : List (List Char × Char) := [
  ("#xd;".toList, '\r'), ("#xa;".toList, '\n'), ("apos;".toList, '\''), ("quot;".toList, '"'),
  ("gt;".toList, '>'), ("lt;".toList, '<'), ("#10;".toList, '\n'), ("#13;".toList, '\r'),
  ("amp;".toList, '&')]

/-- The replacements so far, and those that follow. -/
lemma foldl_readFrom {es ds : List (List Char × Char)} (s : List Char)
    (hamp : ∀ d ∈ ds, '&' ∉ d.1)
    (h : (es ++ ds).Pairwise fun e d => e.2 ∉ d.1 ∧ e.2 ≠ '&') :
    ds.foldl (fun s d => Chars.replaceAll ('&' :: d.1) [d.2] s) (readFrom es 0 s) =
      readFrom (es ++ ds) 0 s := by
  induction ds generalizing es with
  | nil => rw [List.foldl_nil, List.append_nil]
  | cons d ds ih =>
    obtain ⟨hd, hds⟩ := List.forall_mem_cons.1 hamp
    have hes : ∀ e ∈ es, e.2 ∉ d.1 ∧ e.2 ≠ '&' :=
      fun e he => (List.pairwise_append.1 h).2.2 e he d List.mem_cons_self
    rw [List.foldl_cons, replaceAll_readFrom hd hes]
    have hassoc : es ++ d :: ds = es ++ [d] ++ ds := List.append_cons es d ds
    rw [hassoc] at h ⊢
    exact ih hds h

lemma readFrom_nil (s : List Char) : readFrom [] 0 s = s := by
  induction s with
  | nil => rfl
  | cons c s ih =>
    by_cases hc : c = '&'
    · subst hc
      rw [readFrom_of_find_eq_none rfl, ih]
    · rw [readFrom_of_ne [] hc, ih]

/-- No name starts with another one, so at most one stands at the front of a text, and the order of
the table does not count. -/
lemma find_readingOrder (s : List Char) : find readingOrder s = find entities s := by
  have hsub : ∀ e ∈ entities, e ∈ readingOrder := by decide
  have hsub' : ∀ e ∈ readingOrder, e ∈ entities := by decide
  have hunique : ∀ e ∈ entities, ∀ d ∈ entities, e.1 <+: d.1 → e = d := by decide
  cases hfind : find entities s with
  | none =>
    rw [find, List.find?_eq_none] at hfind ⊢
    exact fun e he => hfind e (hsub' e he)
  | some e =>
    obtain ⟨he, hmatch⟩ := And.intro (List.mem_of_find?_eq_some hfind) (List.find?_some hfind)
    cases hfind' : find readingOrder s with
    | none => exact absurd hmatch (List.find?_eq_none.1 hfind' e (hsub e he))
    | some d =>
      have hd := hsub' d (List.mem_of_find?_eq_some hfind')
      have hmatch' := List.find?_some hfind'
      rcases List.prefix_or_prefix_of_prefix (Chars.isSome_after?_iff.1 hmatch)
        (Chars.isSome_after?_iff.1 hmatch') with hed | hde
      · rw [hunique e he d hd hed]
      · rw [hunique d hd e he hde]

lemma unescapeFrom_eq_readFrom (skip : Nat) (s : List Char) :
    unescapeFrom skip s = readFrom readingOrder skip s := by
  induction s generalizing skip with
  | nil => cases skip <;> rfl
  | cons c s ih =>
    cases skip with
    | succ skip => rw [unescapeFrom, readFrom, ih]
    | zero =>
      rw [unescapeFrom, readFrom, find_readingOrder, entity?, find]
      split
      · cases entities.find? fun e => (Chars.after? e.1 s).isSome with
        | none => rw [Option.map_none, ih]
        | some e =>
          rw [Option.map_some]
          exact congrArg (e.2 :: ·) (ih e.1.length)
      · rw [ih]

/-- A text is read by nine replacements, the ampersand last. -/
theorem unescapeChars_eq_replaceAll (s : List Char) :
    unescapeChars s =
      readingOrder.foldl (fun s e => Chars.replaceAll ('&' :: e.1) [e.2] s) s := by
  have hfold : readingOrder.foldl (fun s e => Chars.replaceAll ('&' :: e.1) [e.2] s)
      (readFrom [] 0 s) = readFrom ([] ++ readingOrder) 0 s :=
    foldl_readFrom s (by decide) (by decide)
  rw [readFrom_nil, List.nil_append] at hfold
  rw [hfold, unescapeChars, unescapeFrom_eq_readFrom]

/-! ### Ampersands -/

/-- The written forms of the special characters. -/
def writtenForms : List (List Char) :=
  special.map char

/-- The written form of a special character has its only ampersand at its front. -/
lemma exists_writtenForm {form : List Char} (h : form ∈ writtenForms) :
    ∃ name, form = '&' :: name ∧ '&' ∉ name := by
  have hforms : ∀ form ∈ writtenForms, form = '&' :: form.tail ∧ '&' ∉ form.tail := by decide
  exact ⟨form.tail, hforms form h⟩

/-- An ampersand in the written form of one character, and what stands behind it. -/
lemma prefix_of_char_eq {c : Char} {x y : List Char} (h : char c = x ++ '&' :: y) :
    '&' :: y ∈ writtenForms := by
  by_cases hc : c ∈ special
  · have hmem : char c ∈ writtenForms := List.mem_map_of_mem hc
    obtain ⟨name, hname, hamp⟩ := exists_writtenForm hmem
    cases x with
    | nil => rwa [h] at hmem
    | cons d x =>
      -- a second ampersand, which the name does not have
      rw [hname, List.cons_append] at h
      exact absurd ((List.cons.inj h).2 ▸ List.mem_append_right x List.mem_cons_self) hamp
  · rw [char_of_not_special hc] at h
    have hmem : '&' ∈ [c] := h ▸ List.mem_append_right x List.mem_cons_self
    obtain rfl := List.mem_singleton.1 hmem
    exact absurd (by decide) hc

/-- Every ampersand of a written text begins a written form. -/
lemma exists_writtenForm_prefix {s x y : List Char} (h : escapeChars s = x ++ '&' :: y) :
    ∃ form ∈ writtenForms, form <+: '&' :: y := by
  induction s generalizing x with
  | nil => simp at h
  | cons c s ih =>
    rw [escapeChars, List.flatMap_cons, ← escapeChars] at h
    rcases List.append_eq_append_iff.1 h with ⟨x', -, hrest⟩ | ⟨y', hchar, hrest⟩
    · exact ih hrest
    · cases y' with
      | nil => exact ih (x := []) hrest.symm
      | cons d y' =>
        -- the ampersand stands in the written form of the first character
        obtain ⟨rfl, rfl⟩ := List.cons.inj hrest
        exact ⟨_, prefix_of_char_eq hchar, List.prefix_append _ _⟩

/-- No written form starts with another one. -/
lemma eq_of_prefix {form form' t : List Char} (h : form ∈ writtenForms) (h' : form' ∈ writtenForms)
    (ht : form <+: t) (ht' : form' <+: t) : form = form' := by
  have hfree : ∀ a ∈ writtenForms, ∀ b ∈ writtenForms, a <+: b → a = b := by decide
  rcases List.prefix_or_prefix_of_prefix ht ht' with hpre | hpre
  · exact hfree form h form' h' hpre
  · exact (hfree form' h' form h hpre).symm

/-- Writing, which is seven replacements, is undone by reading, which is nine.  In a written text
stands no special character but the ampersand, and every ampersand begins exactly one written form.
So different texts have different written forms, whatever ampersands they hold. -/
theorem unambiguous_escape (s : String) :
    (escape s).toList = special.foldl (fun t c => Chars.replaceAll [c] (char c) t) s.toList ∧
      (∀ t, (unescape t).toList =
        readingOrder.foldl (fun u e => Chars.replaceAll ('&' :: e.1) [e.2] u) t.toList) ∧
      unescape (escape s) = s ∧
      (∀ c ∈ ['<', '>', '"', '\'', '\n', '\r'], c ∉ (escape s).toList) ∧
      (∀ x y, (escape s).toList = x ++ '&' :: y →
        ∃! form, form ∈ writtenForms ∧ form <+: '&' :: y) ∧
      ∀ t, escape t = escape s → t = s := by
  have hchars : (escape s).toList = escapeChars s.toList := String.toList_ofList
  refine ⟨?_, fun t => ?_, unescape_escape s, fun c hc => ?_, fun x y hxy => ?_, fun t ht => ?_⟩
  · rw [hchars, escapeChars_eq_replaceAll]
  · rw [unescape, String.toList_ofList, unescapeChars_eq_replaceAll]
  · have hspecial : ∀ c ∈ ['<', '>', '"', '\'', '\n', '\r'], c ∈ special ∧ c ≠ '&' := by decide
    rw [hchars]
    exact not_mem_escapeChars (hspecial c hc).1 (hspecial c hc).2 _
  · rw [hchars] at hxy
    obtain ⟨form, hform, hprefix⟩ := exists_writtenForm_prefix hxy
    exact ⟨form, ⟨hform, hprefix⟩, fun form' h => eq_of_prefix h.1 hform h.2 hprefix⟩
  · rw [← unescape_escape t, ht, unescape_escape]

/-- A text that holds a written form already. -/
theorem unambiguous_escape_lookalike :
    (escape "&lt;<").toList = "&amp;lt;".toList ++ '&' :: "lt;".toList ∧
      '<' ∉ (escape "&lt;<").toList ∧
      ∃! form, form ∈ writtenForms ∧ form <+: '&' :: "lt;".toList := by
  have hchars : (escape "&lt;<").toList = "&amp;lt;".toList ++ '&' :: "lt;".toList := by decide
  obtain ⟨-, -, -, hplain, hforms, -⟩ := unambiguous_escape "&lt;<"
  exact ⟨hchars, hplain '<' (by decide), hforms _ _ hchars⟩

end Escape
end UmlDraw
