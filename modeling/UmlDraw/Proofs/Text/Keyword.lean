/-
# Keywords as they are written

A keyword is read in any case, and a few unusual letters count as spellings of its letters.  A
letter of a text spells only one letter of keywords, so a keyword has no reading where another one
is written that differs from it in a letter.

The main statements are

* `Letter.eq_of_sameLetter`: a letter spells only one letter;
* `Scan.forced_keyword` and `Scan.fails_keyword`: what a written keyword is read as;
* `Scan.WrittenWord.forced_oneOf` and `Scan.WrittenWord.fails_oneOf`: one of several keywords;
* `Scan.not_beginsWith_of_apart`: a text does not begin with different words;
* `Scan.OpensWith.fails`: a scan has no reading where other words stand than those it begins with.
-/
import Mathlib.Data.List.Forall2
import UmlDraw.Proofs.Text.Consumed
import UmlDraw.Proofs.Text.Lines
import UmlDraw.Proofs.Text.Reading

namespace UmlDraw

/-- A letter spells only one small ASCII letter. -/
lemma Letter.eq_of_sameLetter {k k' c : Char} (hk : k.toNat < 128) (hk' : k'.toNat < 128)
    (h : sameLetter k c = true) (h' : sameLetter k' c = true) : k = k' := by
  have hunusual : ∀ {j : Char}, j.toNat < 128 → sameLetter j c = true →
      j = small c ∨ (j = 'i' ∧ (c = '\u0131' ∨ c = '\u0130')) ∨ (j = 's' ∧ c = '\u017f') := by
    intro j _ hj
    simpa [sameLetter, or_assoc] using hj
  have hsmall : ∀ d ∈ ['\u0131', '\u0130', '\u017f'], ¬ (small d).toNat < 128 := by decide
  rcases hunusual hk h with rfl | ⟨rfl, hc⟩ | ⟨rfl, rfl⟩ <;>
    rcases hunusual hk' h' with rfl | ⟨rfl, hc'⟩ | ⟨rfl, hc'⟩
  · rfl
  · rcases hc' with rfl | rfl <;> exact absurd hk (hsmall _ (by decide))
  · subst hc'
    exact absurd hk (hsmall _ (by decide))
  · rcases hc with rfl | rfl <;> exact absurd hk' (hsmall _ (by decide))
  · rfl
  · subst hc'
    rcases hc with hc | hc <;> cases hc
  · exact absurd hk' (hsmall _ (by decide))
  · rcases hc' with hc | hc <;> cases hc
  · rfl

/-- Only letters have a small letter that is another one. -/
lemma Letter.isWord_of_small_ne {c : Char} (h : small c ≠ c) : isWord c = true := by
  unfold small at h
  split at h
  · next hupper =>
    have hle : c.val ≤ 'Z'.val := (of_decide_eq_true hupper).2
    have hlt : c.toNat < 128 := Nat.lt_of_le_of_lt (UInt32.le_iff_toNat_le.1 hle) (by decide)
    have halpha : c.isAlpha = true := Bool.or_eq_true_iff.2 (.inl hupper)
    rw [isWord, if_pos hlt, Char.isAlphanum, halpha]
    rfl
  · split at h
    · next hkelvin =>
      rw [beq_iff_eq] at hkelvin
      subst hkelvin
      decide +kernel
    · exact absurd rfl h

/-- A spelling of a word character is one. -/
lemma Letter.isWord_of_sameLetter {k c : Char} (hk : isWord k = true) (h : sameLetter k c = true) :
    isWord c = true := by
  simp only [sameLetter, Bool.or_eq_true, Bool.and_eq_true, beq_iff_eq] at h
  rcases h with (rfl | ⟨-, rfl | rfl⟩) | ⟨-, rfl⟩
  · by_cases hsmall : small c = c
    · rwa [hsmall] at hk
    · exact isWord_of_small_ne hsmall
  · decide +kernel
  · decide +kernel
  · decide +kernel

/-- A blank spells itself only. -/
lemma Letter.eq_of_sameLetter_of_isBlank {k c : Char} (hc : isBlank c = true)
    (h : sameLetter k c = true) : k = c := by
  simp only [sameLetter, Bool.or_eq_true, Bool.and_eq_true, beq_iff_eq] at h
  rcases h with (rfl | ⟨-, rfl | rfl⟩) | ⟨-, rfl⟩
  · by_contra hne
    have hword := isWord_of_small_ne hne
    rw [isWord_of_isBlank hc] at hword
    cases hword
  · cases hc
  · cases hc
  · cases hc

namespace Scan

variable {cs s : List Char} {w : String}

/-- The characters spell the word. -/
def Spells (w : String) (cs : List Char) : Prop :=
  List.Forall₂ (fun k c => Letter.sameLetter k c = true) w.toList cs

instance (w : String) (cs : List Char) : Decidable (Spells w cs) :=
  inferInstanceAs (Decidable (List.Forall₂ (fun k c => Letter.sameLetter k c = true) w.toList cs))

lemma Spells.ne_nil (h : Spells w cs) (hw : w.toList ≠ []) : cs ≠ [] := by
  rintro rfl
  exact hw (List.forall₂_nil_right_iff.1 h)

/-- The words differ in a letter before one of them ends. -/
def differ : List Char → List Char → Bool
  | k :: ks, l :: ls => if k = l then differ ks ls else k.toNat < 128 && l.toNat < 128
  | _, _ => false

lemma differ_self (ks : List Char) : differ ks ks = false := by
  induction ks with
  | nil => rfl
  | cons k ks ih => rw [differ, if_pos rfl, ih]

lemma forced_spelled {ks : List Char}
    (h : List.Forall₂ (fun k c => Letter.sameLetter k c = true) ks cs) (s : List Char) :
    (spelled ks).Forced (cs ++ s) cs s := by
  induction h with
  | nil => exact fun _ _ => rfl
  | cons hc _ ih =>
    intro β next
    exact (if_pos hc).trans (ih _)

lemma fails_spelled {ks ls : List Char} (hdiffer : differ ks ls = true)
    (h : List.Forall₂ (fun k c => Letter.sameLetter k c = true) ls cs) (s : List Char) :
    (spelled ks).Fails (cs ++ s) := by
  induction h generalizing ks with
  | nil => cases ks <;> cases hdiffer
  | @cons l c ls cs hc _ ih =>
    cases ks with
    | nil => cases hdiffer
    | cons k ks =>
      intro β next
      rw [differ] at hdiffer
      split at hdiffer
      · next he =>
        subst he
        exact (if_pos hc).trans (ih hdiffer _)
      · next hne =>
        simp only [Bool.and_eq_true, decide_eq_true_eq] at hdiffer
        exact if_neg fun hk => hne (Letter.eq_of_sameLetter hdiffer.1 hdiffer.2 hk hc)

lemma isWord_of_spelled {ks : List Char} (hk : ∀ k ∈ ks, Letter.isWord k = true)
    (h : List.Forall₂ (fun k c => Letter.sameLetter k c = true) ks cs) :
    ∀ c ∈ cs, Letter.isWord c = true := by
  induction h with
  | nil => exact List.forall_mem_nil _
  | cons hc _ ih =>
    obtain ⟨hk, hks⟩ := List.forall_mem_cons.1 hk
    exact List.forall_mem_cons.2 ⟨Letter.isWord_of_sameLetter hk hc, ih hks⟩

lemma forced_keyword (h : Spells w cs) (s : List Char) : (keyword w).Forced (cs ++ s) () s :=
  fun _ _ => forced_spelled h s _

lemma fails_keyword {v : String} (hdiffer : differ v.toList w.toList = true) (h : Spells w cs)
    (s : List Char) : (keyword v).Fails (cs ++ s) :=
  (fails_spelled hdiffer h s).bind _

lemma fails_spelled_of_head {ks : List Char} (hne : ks ≠ [])
    (hk : ∀ k ∈ ks, Letter.isWord k = true) (hs : ∀ c ∈ s.head?, Letter.isWord c = false) :
    (spelled ks).Fails s := by
  obtain ⟨k, ks, rfl⟩ := List.exists_cons_of_ne_nil hne
  refine Fails.bind (fails_satisfy fun c hc => ?_) _
  cases hsame : Letter.sameLetter k c with
  | false => rfl
  | true =>
    have hword := Letter.isWord_of_sameLetter (hk k (List.mem_cons_self ..)) hsame
    rw [hs c hc] at hword
    cases hword

/-- A keyword has no reading in front of a character that is no letter. -/
lemma fails_keyword_of_head {v : String}
    (hv : v.toList ≠ [] ∧ ∀ k ∈ v.toList, Letter.isWord k = true)
    (hs : ∀ c ∈ s.head?, Letter.isWord c = false) : (keyword v).Fails s :=
  (fails_spelled_of_head hv.1 hv.2 hs).bind _

lemma fails_oneOf_of_head {words : List String}
    (h : ∀ v ∈ words, v.toList ≠ [] ∧ ∀ k ∈ v.toList, Letter.isWord k = true)
    (hs : ∀ c ∈ s.head?, Letter.isWord c = false) : (oneOf words).Fails s := by
  refine Fails.bind (fails_anyOf fun p hp => ?_) _
  obtain ⟨v, hv, rfl⟩ := List.mem_map.1 hp
  exact fails_spelled_of_head (h v hv).1 (h v hv).2 hs

lemma cuts_spelled (ks : List Char) : (spelled ks).Cuts fun x _ _ =>
    List.Forall₂ (fun k c => Letter.sameLetter k c = true) ks x := by
  induction ks with
  | nil => exact fun _ s _ b hb => ⟨[], [], s, rfl, .nil, hb⟩
  | cons k ks ih =>
    intro _ s next b hb
    obtain ⟨_, c, t, rfl, ⟨rfl, hc⟩, hrest⟩ := (Cuts.satisfy _).of_bind hb
    obtain ⟨x, _, u, rfl, hx, hnext⟩ := ih.of_bind hrest
    exact ⟨c :: x, _, u, rfl, .cons hc hx, hnext⟩

/-- A keyword reads its spellings. -/
lemma cuts_keyword (w : String) : (keyword w).Cuts fun x _ _ => Spells w x := by
  intro _ s next b hb
  obtain ⟨x, _, t, hs, hx, hnext⟩ := (cuts_spelled _).of_bind hb
  exact ⟨x, (), t, hs, hx, hnext⟩

/-- One of several keywords reads spellings of theirs. -/
lemma cuts_oneOf (words : List String) :
    (oneOf words).Cuts fun x _ _ => ∃ w ∈ words, Spells w x := by
  have hany : (anyOf (words.map fun v => spelled v.toList)).Cuts fun x _ _ =>
      ∃ w ∈ words, Spells w x := by
    refine Cuts.anyOf fun p hp => ?_
    obtain ⟨w, hw, rfl⟩ := List.mem_map.1 hp
    exact (cuts_spelled _).imp fun x _ _ hx => ⟨w, hw, hx⟩
  intro _ s next b hb
  obtain ⟨x, _, t, hs, hx, hnext⟩ := hany.of_bind hb
  exact ⟨x, _, t, hs, hx, hnext⟩

/-- Of several keywords the one that is spelled is read, if it is among them. -/
lemma run_anyOf_spelled {β : Type} {words : List String} (h : Spells w cs)
    (hwords : ∀ v ∈ words, v = w ∨ differ v.toList w.toList = true) (s : List Char)
    (next : List Char → List Char → Option β) :
    (anyOf (words.map fun v => spelled v.toList)).run (cs ++ s) next =
      if w ∈ words then next cs s else none := by
  induction words with
  | nil => rfl
  | cons v words ih =>
    obtain ⟨hv, hwords⟩ := List.forall_mem_cons.1 hwords
    rw [List.map_cons, anyOf, run_either, ih hwords]
    rcases hv with rfl | hdiffer
    · rw [forced_spelled h s, if_pos (List.mem_cons_self ..)]
      split
      · exact Option.or_self
      · exact Option.or_none
    · have hne : w ≠ v := by
        rintro rfl
        rw [differ_self] at hdiffer
        cases hdiffer
      rw [fails_spelled hdiffer h s, Option.none_or]
      simp only [List.mem_cons, hne, false_or]

/-- One of several keywords as it is written. -/
structure WrittenWord (words : List String) where
  /-- The characters. -/
  chars : List Char
  spells : ∃ w ∈ words, Spells w chars

namespace WrittenWord

variable {words : List String} (w : WrittenWord words)

/-- The word in small letters. -/
def word : String :=
  String.ofList (w.chars.flatMap lowered)

lemma chars_ne_nil (h : ∀ word ∈ words, word.toList ≠ []) : w.chars ≠ [] := by
  obtain ⟨word, hword, hspells⟩ := w.spells
  exact hspells.ne_nil (h word hword)

lemma isWord_of_mem
    (h : ∀ word ∈ words, word.toList ≠ [] ∧ ∀ k ∈ word.toList, Letter.isWord k = true) :
    ∀ c ∈ w.chars, Letter.isWord c = true := by
  obtain ⟨word, hword, hspells⟩ := w.spells
  exact isWord_of_spelled (h word hword).2 hspells

lemma isWord_head (h : ∀ word ∈ words, word.toList ≠ [] ∧ ∀ k ∈ word.toList, Letter.isWord k = true)
    (s : List Char) : ∀ c ∈ (w.chars ++ s).head?, Letter.isWord c = true := by
  obtain ⟨word, hword, hspells⟩ := w.spells
  obtain ⟨d, cs, hcs⟩ := List.exists_cons_of_ne_nil (hspells.ne_nil (h word hword).1)
  intro c hc
  refine w.isWord_of_mem h c ?_
  rw [hcs] at hc ⊢
  exact Option.some.inj hc ▸ List.mem_cons_self ..

lemma not_isBlank_head
    (h : ∀ word ∈ words, word.toList ≠ [] ∧ ∀ k ∈ word.toList, Letter.isWord k = true)
    (s : List Char) : ∀ c ∈ (w.chars ++ s).head?, Letter.isBlank c = false := by
  intro c hc
  cases hblank : Letter.isBlank c with
  | false => rfl
  | true =>
    have hword := w.isWord_head h s c hc
    rw [Letter.isWord_of_isBlank hblank] at hword
    cases hword

lemma forced_keyword {word : String} (w : WrittenWord [word]) (s : List Char) :
    (keyword word).Forced (w.chars ++ s) () s := by
  obtain ⟨v, hv, hspells⟩ := w.spells
  rw [List.mem_singleton.1 hv] at hspells
  exact Scan.forced_keyword hspells s

lemma fails_keyword {v : String} (h : ∀ word ∈ words, differ v.toList word.toList = true)
    (s : List Char) : (keyword v).Fails (w.chars ++ s) := by
  obtain ⟨word, hword, hspells⟩ := w.spells
  exact Scan.fails_keyword (h word hword) hspells s

lemma fails_oneOf {others : List String}
    (h : ∀ word ∈ words, ∀ v ∈ others, differ v.toList word.toList = true) (s : List Char) :
    (oneOf others).Fails (w.chars ++ s) := by
  obtain ⟨word, hword, hspells⟩ := w.spells
  refine Fails.bind (fails_anyOf fun p hp => ?_) _
  obtain ⟨v, hv, rfl⟩ := List.mem_map.1 hp
  exact fails_spelled (h word hword v hv) hspells s

/-- Of several keywords that differ from each other, the one that is written is read. -/
lemma forced_oneOf (h : ∀ v ∈ words, ∀ v' ∈ words, v = v' ∨ differ v.toList v'.toList = true)
    (s : List Char) : (oneOf words).Forced (w.chars ++ s) w.word s := by
  obtain ⟨word, hword, hspells⟩ := w.spells
  intro β next
  exact (run_anyOf_spelled hspells (fun v hv => h v hv word hword) s _).trans (if_pos hword)

end WrittenWord

end Scan

/-- Blanks as they are written. -/
structure Blanks where
  /-- The characters. -/
  chars : List Char
  blank : ∀ c ∈ chars, Letter.isBlank c = true

/-- At least one blank as it is written. -/
structure Blanks1 extends Blanks where
  ne_nil : chars ≠ []

lemma Blanks.takes {s : List Char} (b : Blanks) (hs : ∀ c ∈ s.head?, Letter.isBlank c = false) :
    Scan.blanks.Takes (b.chars ++ s) () s :=
  Scan.takes_skip b.blank hs

lemma Blanks1.takes {s : List Char} (b : Blanks1)
    (hs : ∀ c ∈ s.head?, Letter.isBlank c = false) : Scan.blanks1.Takes (b.chars ++ s) () s :=
  Scan.takes_skip1 b.ne_nil b.blank hs

/-! ### Words at the beginning of a text -/

namespace Scan

variable {α β : Type} {p q : Scan α} {s t b cs : List Char} {w v : String}
  {ws vs : List String} {heads others : List (List String)}

/-- The word begins with a character that is no blank. -/
def isSolid (w : String) : Bool :=
  w.toList.head?.any fun k => !Letter.isBlank k

/-- The text begins with the words, with blanks in front of them or none. -/
inductive BeginsWith : List String → List Char → Prop
  | nil (s : List Char) : BeginsWith [] s
  | cons {w : String} {ws : List String} {b cs s : List Char}
      (hb : ∀ c ∈ b, Letter.isBlank c = true) (hw : Spells w cs) (hs : BeginsWith ws s) :
      BeginsWith (w :: ws) (b ++ (cs ++ s))

lemma Spells.not_isBlank_head (h : Spells w cs) (hw : isSolid w = true) (s : List Char) :
    ∀ c ∈ (cs ++ s).head?, Letter.isBlank c = false := by
  unfold Spells at h
  unfold isSolid at hw
  generalize w.toList = ks at h hw
  cases h with
  | nil => cases hw
  | @cons k c _ _ hc _ =>
    intro d hd
    obtain rfl : c = d := Option.some.inj hd
    cases hblank : Letter.isBlank c with
    | false => rfl
    | true =>
      obtain rfl := Letter.eq_of_sameLetter_of_isBlank hblank hc
      simp [hblank] at hw

/-- A text begins with a word behind the blanks at its start only. -/
lemma BeginsWith.inv (h : BeginsWith (v :: vs) (b ++ (cs ++ s)))
    (hb : ∀ c ∈ b, Letter.isBlank c = true) (hw : Spells w cs) (hsolid : isSolid w = true)
    (hv : isSolid v = true) :
    ∃ cs' s', cs ++ s = cs' ++ s' ∧ Spells v cs' ∧ BeginsWith vs s' := by
  generalize htext : b ++ (cs ++ s) = u at h
  cases h with
  | @cons _ _ b' cs' s' hb' hw' hs =>
    exact ⟨cs', s', Chars.eq_of_append_run hb hb' (hw.not_isBlank_head hsolid s)
      (hw'.not_isBlank_head hv s') htext, hw', hs⟩

/-- What a text begins with behind a word that it begins with. -/
lemma BeginsWith.tail (h : BeginsWith (w :: ws) (b ++ (cs ++ s))) (hsolid : isSolid w = true)
    (hb : ∀ c ∈ b, Letter.isBlank c = true) (hw : Spells w cs) : BeginsWith ws s := by
  obtain ⟨cs', s', hword, hw', hs⟩ := h.inv hb hw hsolid hsolid
  have hlength : cs.length = cs'.length := hw.length_eq.symm.trans hw'.length_eq
  rwa [(List.append_inj hword hlength).2]

lemma BeginsWith.word (hw : Spells w cs) (hs : BeginsWith ws s) :
    BeginsWith (w :: ws) (cs ++ s) :=
  .cons (b := []) (List.forall_mem_nil _) hw hs

lemma BeginsWith.blanks (h : BeginsWith ws s) (hb : ∀ c ∈ b, Letter.isBlank c = true) :
    BeginsWith ws (b ++ s) := by
  cases h with
  | nil => exact .nil _
  | cons hb' hw hs =>
    rw [← List.append_assoc]
    exact .cons (List.forall_mem_append.2 ⟨hb, hb'⟩) hw hs

/-- Of two rows of words, one has a word that differs in a letter from the one at the same place in
the other row. -/
def apart : List String → List String → Bool
  | v :: vs, w :: ws =>
    isSolid v && isSolid w && if v = w then apart vs ws else differ v.toList w.toList
  | _, _ => false

lemma not_beginsWith_of_apart (h : BeginsWith ws s) (hapart : apart vs ws = true) :
    ¬ BeginsWith vs s := by
  induction h generalizing vs with
  | nil s => cases vs <;> cases hapart
  | @cons w ws b cs s hb hw _ ih =>
    cases vs with
    | nil => cases hapart
    | cons v vs =>
      intro hvs
      simp only [apart, Bool.and_eq_true] at hapart
      obtain ⟨⟨hv, hsolid⟩, hrest⟩ := hapart
      split at hrest
      · next he =>
        subst he
        exact ih hrest (hvs.tail hsolid hb hw)
      · obtain ⟨cs', s', hword, hw', -⟩ := hvs.inv hb hw hsolid hv
        have hforced := forced_keyword hw' s' fun _ _ => some ()
        have hfails := fails_keyword hrest hw s fun _ _ => some ()
        rw [hword, hforced] at hfails
        cases hfails

/-- Behind the blanks at its start the text does not go on with a letter. -/
def Stops (s : List Char) : Prop :=
  ∀ c ∈ (s.dropWhile Letter.isBlank).head?, Letter.isWord c = false

lemma stops_of_head {c : Char} (hc : Letter.isBlank c = false ∧ Letter.isWord c = false)
    (s : List Char) : Stops (c :: s) := by
  intro d hd
  rw [List.dropWhile_cons_of_neg (by simp [hc.1])] at hd
  obtain rfl : c = d := Option.some.inj hd
  exact hc.2

lemma stops_of_blanks {x s : List Char} (hx : ∀ c ∈ x, Letter.isBlank c = true) (hs : Stops s) :
    Stops (x ++ s) := by
  unfold Stops
  rwa [List.dropWhile_append_of_pos hx]

/-- A text does not begin with one more word where no letter follows. -/
lemma not_beginsWith_of_stops (hsolid : isSolid w = true) (hw : Spells w cs) (hs : Stops s)
    (hv : v.toList ≠ [] ∧ ∀ k ∈ v.toList, Letter.isWord k = true) :
    ¬ BeginsWith (w :: v :: ws) (cs ++ s) := by
  intro h
  have hrest : BeginsWith (v :: ws) s := h.tail (b := []) hsolid (List.forall_mem_nil _) hw
  cases hrest with
  | @cons _ _ b cs' s' hb hw' _ =>
    let word : WrittenWord [v] := ⟨cs', v, List.mem_singleton_self v, hw'⟩
    have hletters : ∀ x ∈ [v], x.toList ≠ [] ∧ ∀ k ∈ x.toList, Letter.isWord k = true :=
      List.forall_mem_singleton.2 hv
    have hdrop : (b ++ (cs' ++ s')).dropWhile Letter.isBlank = cs' ++ s' := by
      rw [List.dropWhile_append_of_pos hb,
        Chars.dropWhile_of_head (word.not_isBlank_head hletters s')]
    obtain ⟨c, cs', rfl⟩ := List.exists_cons_of_ne_nil (hw'.ne_nil hv.1)
    have hstop := hs c (by rw [hdrop]; rfl)
    rw [word.isWord_head hletters s' c rfl] at hstop
    cases hstop

/-- A text that begins with a word is not empty. -/
lemma isEmpty_of_apart (h : BeginsWith ws s) (hapart : apart vs ws = true) :
    s.isEmpty = false := by
  refine List.isEmpty_eq_false_iff.2 ?_
  cases h with
  | nil => cases vs <;> cases hapart
  | @cons w _ b cs s _ hw _ =>
    rintro hnil
    obtain ⟨rfl, hrest⟩ := List.append_eq_nil_iff.1 hnil
    obtain ⟨rfl, rfl⟩ := List.append_eq_nil_iff.1 hrest
    cases vs with
    | nil => cases hapart
    | cons v vs =>
      simp only [apart, Bool.and_eq_true] at hapart
      have hnone : w.toList = [] := List.forall₂_nil_right_iff.1 hw
      rw [isSolid, isSolid, hnone] at hapart
      simp at hapart

/-! ### The words that a scan begins with -/

lemma run_optional_bind {γ : Type} {f : Option α → Scan γ} {next : γ → List Char → Option β}
    {r : β} (h : (optional p >>= f).run s next = some r) :
    (∃ next', p.run s next' = some r) ∨ (f none).run s next = some r := by
  change (either (some <$> p) (pure none)).run s _ = some r at h
  rw [run_either, Option.or_eq_some_iff] at h
  exact h.imp (fun h => ⟨_, h⟩) And.right

/-- Each text that the scan reads begins with one of some rows of words. -/
def OpensWith (p : Scan α) (heads : List (List String)) : Prop :=
  ∀ ⦃β : Type⦄ (s : List Char) (next : α → List Char → Option β) (b : β),
    p.run s next = some b → ∃ ws ∈ heads, BeginsWith ws s

namespace OpensWith

variable {f : α → Scan β}

lemma bind (h : p.OpensWith heads) (f : α → Scan β) : (p >>= f).OpensWith heads :=
  fun _ s _ b hb => h s _ b hb

lemma mono (h : p.OpensWith heads) (hsub : heads ⊆ others) : p.OpensWith others := by
  intro _ s next b hb
  obtain ⟨ws, hws, hs⟩ := h s next b hb
  exact ⟨ws, hsub hws, hs⟩

lemma either (hp : p.OpensWith heads) (hq : q.OpensWith others) :
    (Scan.either p q).OpensWith (heads ++ others) := by
  intro _ s next b hb
  rw [run_either, Option.or_eq_some_iff] at hb
  rcases hb with hb | ⟨-, hb⟩
  · obtain ⟨ws, hws, hs⟩ := hp s next b hb
    exact ⟨ws, List.mem_append_left _ hws, hs⟩
  · obtain ⟨ws, hws, hs⟩ := hq s next b hb
    exact ⟨ws, List.mem_append_right _ hws, hs⟩

/-- What comes after something that may be left out. -/
lemma optional_bind {f : Option α → Scan β} (hp : p.OpensWith heads)
    (hf : (f none).OpensWith others) : (Scan.optional p >>= f).OpensWith (heads ++ others) := by
  intro _ s next b hb
  rcases run_optional_bind hb with ⟨next', hb⟩ | hb
  · obtain ⟨ws, hws, hs⟩ := hp s next' b hb
    exact ⟨ws, List.mem_append_left _ hws, hs⟩
  · obtain ⟨ws, hws, hs⟩ := hf s next b hb
    exact ⟨ws, List.mem_append_right _ hws, hs⟩

lemma withText (h : p.OpensWith heads) : (Scan.withText p).OpensWith heads :=
  fun _ s _ b hb => h s _ b hb

lemma captured (h : p.OpensWith heads) : (Scan.captured p).OpensWith heads :=
  h.withText.bind _

/-- What comes after a keyword. -/
lemma keyword_bind (w : String) {f : Unit → Scan β} (hf : (f ()).OpensWith heads) :
    (Scan.keyword w >>= f).OpensWith (heads.map (w :: ·)) := by
  intro _ s next b hb
  obtain ⟨x, _, t, rfl, hx, hnext⟩ := (cuts_keyword w).of_bind hb
  obtain ⟨ws, hws, hs⟩ := hf t next b hnext
  exact ⟨w :: ws, List.mem_map_of_mem hws, .word hx hs⟩

lemma pure (a : α) : (Pure.pure a : Scan α).OpensWith [[]] :=
  fun _ s _ _ _ => ⟨[], List.mem_singleton_self _, .nil s⟩

lemma keyword (w : String) : (Scan.keyword w).OpensWith [[w]] :=
  keyword_bind w (pure ())

/-- What comes after blanks. -/
lemma blanks_bind {f : α → Scan β} (hp : p.Cuts fun x _ _ => ∀ c ∈ x, Letter.isBlank c = true)
    (hf : ∀ a, (f a).OpensWith heads) : (p >>= f).OpensWith heads := by
  intro _ s next b hb
  obtain ⟨x, a, t, rfl, hx, hnext⟩ := hp.of_bind hb
  obtain ⟨ws, hws, hs⟩ := hf a t next b hnext
  exact ⟨ws, hws, hs.blanks hx⟩

lemma char {c : Char} (hw : Spells w [c]) : (Scan.char c).OpensWith [[w]] := by
  intro _ s next b hb
  obtain ⟨_, _, t, rfl, rfl, -⟩ := Cuts.char c s next b hb
  exact ⟨[w], List.mem_singleton_self _, .word hw (.nil t)⟩

lemma text (hw : Spells w w.toList) : (Scan.text w).OpensWith [[w]] := by
  intro _ s next b hb
  obtain ⟨_, _, t, rfl, rfl, -⟩ := Cuts.text w s next b hb
  exact ⟨[w], List.mem_singleton_self _, .word hw (.nil t)⟩

lemma oneOf (words : List String) : (Scan.oneOf words).OpensWith (words.map ([·])) := by
  intro _ s next b hb
  obtain ⟨x, _, t, rfl, ⟨w, hw, hx⟩, -⟩ := cuts_oneOf words s next b hb
  exact ⟨[w], List.mem_map_of_mem hw, .word hx (.nil t)⟩

lemma anyOf {ps : List (Scan α)} (h : ∀ p ∈ ps, p.OpensWith heads) :
    (Scan.anyOf ps).OpensWith heads := by
  induction ps with
  | nil => exact fun _ _ _ _ hb => nomatch hb
  | cons p ps ih =>
    obtain ⟨hp, hps⟩ := List.forall_mem_cons.1 h
    exact (hp.either (ih hps)).mono (List.append_subset.2 ⟨List.Subset.refl _, List.Subset.refl _⟩)

lemma keywords {between : Scan Unit}
    (hbetween : between.Cuts fun x _ _ => ∀ c ∈ x, Letter.isBlank c = true)
    (words : List String) : (Token.keywords between words).OpensWith [words] := by
  induction words with
  | nil => exact pure ()
  | cons w rest ih =>
    cases rest with
    | nil => exact keyword w
    | cons w' ws =>
      exact keyword_bind w (f := fun _ => between >>= fun _ => Token.keywords between (w' :: ws))
        (blanks_bind hbetween fun _ => ih)

lemma joined (words : List String) : (Token.joined words).OpensWith [words] :=
  keywords (Cuts.skip _) words

lemma phrase (words : List String) : (Token.phrase words).OpensWith [words] :=
  keywords ((Cuts.skip1 _).imp fun _ _ _ h => h.2) words

lemma fails_of_not (h : p.OpensWith heads) (hs : ∀ ws ∈ heads, ¬ BeginsWith ws s) : p.Fails s := by
  intro β next
  cases hrun : p.run s next with
  | none => rfl
  | some b =>
    obtain ⟨ws, hws, hbegins⟩ := h s next b hrun
    exact absurd hbegins (hs ws hws)

/-- A scan has no reading where other words stand than those it begins with. -/
lemma fails (h : p.OpensWith heads) (hs : BeginsWith ws s)
    (hapart : ∀ vs ∈ heads, apart vs ws = true) : p.Fails s :=
  h.fails_of_not fun vs hvs => not_beginsWith_of_apart hs (hapart vs hvs)

lemma of_reads (h : p.OpensWith heads) (hs : p.reads s = true) : ∃ ws ∈ heads, BeginsWith ws s := by
  obtain ⟨a, ha⟩ := Option.isSome_iff_exists.1 hs
  exact h s _ a ha

end OpensWith

lemma Fails.begins (h : p.Fails s) : p.begins s = false := by
  rw [Scan.begins, start, h]
  rfl

/-- The words that one of several forms of lines begins with. -/
lemma opensWith_of_getElem? {forms : List (Scan α)} {openings : List (List (List String))}
    (h : List.Forall₂ OpensWith forms openings) {n : Nat} (hn : forms[n]? = some p) :
    p.OpensWith (openings[n]?.getD []) := by
  induction h generalizing n with
  | nil => cases hn
  | cons hp _ ih =>
    cases n with
    | zero =>
      obtain rfl := Option.some.inj hn
      exact hp
    | succ n => exact ih hn

/-- Forms of lines that begin with other words than a text have no reading of it. -/
lemma fails_of_apart {forms : List (Scan α)} {openings : List (List (List String))}
    (h : List.Forall₂ OpensWith forms openings) (hs : BeginsWith ws s)
    (hapart : ∀ heads ∈ openings, ∀ vs ∈ heads, apart vs ws = true) :
    ∀ p ∈ forms, p.Fails s := by
  induction h with
  | nil => exact List.forall_mem_nil _
  | cons hp _ ih =>
    obtain ⟨hheads, hopenings⟩ := List.forall_mem_cons.1 hapart
    exact List.forall_mem_cons.2 ⟨hp.fails hs hheads, ih hopenings⟩

end Scan
end UmlDraw
