/-
# Printings of structured data

How the strings and numbers of structured data are written, and that they are read back.

The main statements are

* `Json.readString_of_raw`: a string is read up to its closing quotation mark;
* `Json.readNumber_append`: a number is read up to what ends it.
-/
import Mathlib.Tactic.Lemma
import UmlDraw.Data.Json
import UmlDraw.Proofs.Text.Replaced

namespace UmlDraw
namespace Json

/-! ### Strings -/

/-- The characters between the quotation marks of a text, and the text that they stand for. -/
inductive Raw : List Char → List Char → Prop
  | nil : Raw [] []
  | plain {c : Char} {raw s : List Char} (hquote : c ≠ '"') (hslash : c ≠ '\\')
    (hcode : 0x20 ≤ c.toNat) (h : Raw raw s) : Raw (c :: raw) (c :: s)
  | escape {e c : Char} {raw s : List Char} (he : escaped? e = some c) (h : Raw raw s) :
    Raw ('\\' :: e :: raw) (c :: s)
  | code {ds : List Char} {n : Nat} {raw s : List Char} (hn : hex4? ds = some (n, []))
    (hrange : n < 0xd800 ∨ 0xe000 ≤ n) (h : Raw raw s) :
    Raw ('\\' :: 'u' :: (ds ++ raw)) (Char.ofNat n :: s)
  | pair {ds es : List Char} {m n : Nat} {raw s : List Char}
    (hm : hex4? ds = some (m, [])) (hhigh : 0xd800 ≤ m ∧ m < 0xdc00)
    (hn : hex4? es = some (n, [])) (hlow : 0xdc00 ≤ n ∧ n < 0xe000) (h : Raw raw s) :
    Raw ('\\' :: 'u' :: (ds ++ '\\' :: 'u' :: (es ++ raw)))
      (Char.ofNat (0x10000 + (m - 0xd800) * 0x400 + (n - 0xdc00)) :: s)

lemma hex4?_append {ds : List Char} {n : Nat} (h : hex4? ds = some (n, [])) (t : List Char) :
    hex4? (ds ++ t) = some (n, t) := by
  match ds with
  | [] | [_] | [_, _] | [_, _, _] => simp [hex4?] at h
  | a :: b :: c :: d :: s =>
    simp only [hex4?, Option.bind_eq_bind, Option.bind_eq_some_iff, Option.some.injEq,
      Prod.mk.injEq] at h
    obtain ⟨a, ha, b, hb, c, hc, d, hd, rfl, rfl⟩ := h
    simp [hex4?, ha, hb, hc, hd]

lemma unit_single {n : Nat} (h : n < 0xd800 ∨ 0xe000 ≤ n) (s : List Char) :
    unit n s = (Char.ofNat n, s) := by
  have hhigh : (0xd800 ≤ n && n < 0xdc00) = false := by
    simp only [Bool.and_eq_false_iff, decide_eq_false_iff_not]
    omega
  have hall : (0xd800 ≤ n && n < 0xe000) = false := by
    simp only [Bool.and_eq_false_iff, decide_eq_false_iff_not]
    omega
  simp only [unit, hhigh, hall, Bool.false_eq_true, if_false]

lemma unit_pair {m n : Nat} (hm : 0xd800 ≤ m ∧ m < 0xdc00) {es : List Char}
    (hes : hex4? es = some (n, [])) (hn : 0xdc00 ≤ n ∧ n < 0xe000) (s : List Char) :
    unit m ('\\' :: 'u' :: (es ++ s)) =
      (Char.ofNat (0x10000 + (m - 0xd800) * 0x400 + (n - 0xdc00)), s) := by
  have hhigh : (0xd800 ≤ m && m < 0xdc00) = true := by simpa using hm
  have hlow : (0xdc00 ≤ n && n < 0xe000) = true := by simpa using hn
  simp only [unit, hhigh, hlow, hex4?_append hes, if_true]

/-- The characters of a text are read back up to the closing quotation mark. -/
lemma readString_of_raw {raw s : List Char} (h : Raw raw s) {n : Nat} (hn : raw.length < n)
    (seen rest : List Char) : readString n seen (raw ++ '"' :: rest) =
      some (String.ofList (seen.reverse ++ s), rest) := by
  induction h generalizing n seen with
  | nil =>
    obtain ⟨n, rfl⟩ := Nat.exists_eq_succ_of_ne_zero (Nat.ne_of_gt hn)
    simp [readString]
  | @plain c raw s hquote hslash hcode _ ih =>
    obtain ⟨n, rfl⟩ := Nat.exists_eq_succ_of_ne_zero (Nat.ne_zero_of_lt hn)
    have hctrl : ¬ c.toNat < 0x20 := Nat.not_lt.2 hcode
    have ih := ih (n := n) (by simpa using hn) (c :: seen)
    rw [List.cons_append, readString.eq_def]
    simp [hslash, hctrl, ih]
  | @escape e c raw s he _ ih =>
    obtain ⟨n, rfl⟩ := Nat.exists_eq_succ_of_ne_zero (Nat.ne_zero_of_lt hn)
    have ih := ih (n := n) (by simp at hn; omega) (c :: seen)
    have hu : e ≠ 'u' := by
      rintro rfl
      simp [escaped?] at he
    rw [List.cons_append, List.cons_append, readString.eq_def]
    simp [he, ih]
  | @code ds m raw s hm hrange _ ih =>
    obtain ⟨n, rfl⟩ := Nat.exists_eq_succ_of_ne_zero (Nat.ne_zero_of_lt hn)
    have ih := ih (n := n) (by simp at hn; omega) (Char.ofNat m :: seen)
    rw [List.cons_append, List.cons_append, List.append_assoc, readString.eq_def]
    simp [hex4?_append hm, unit_single hrange, ih]
  | @pair ds es m l raw s hm hhigh hl hlow _ ih =>
    obtain ⟨n, rfl⟩ := Nat.exists_eq_succ_of_ne_zero (Nat.ne_zero_of_lt hn)
    have ih := ih (n := n) (by simp at hn; omega)
      (Char.ofNat (0x10000 + (m - 0xd800) * 0x400 + (l - 0xdc00)) :: seen)
    simp only [List.cons_append, List.append_assoc]
    rw [readString.eq_def]
    simp [hex4?_append hm, unit_pair hhigh hl hlow, ih]

/-! ### Numbers -/

/-- No number goes on here. -/
def Stops (s : List Char) : Prop :=
  ∀ c ∈ s.head?, isSpace c = true ∨ c ∈ [',', ']', '\x7d']

lemma Stops.head_ne {s : List Char} (h : Stops s) {c : Char} (hc : c ∈ s.head?) :
    c.isDigit = false ∧ c ∉ ['.', 'e', 'E', '+', '-'] := by
  rcases h c hc with hc | hc
  · simp only [isSpace, Bool.or_eq_true, beq_iff_eq] at hc
    rcases hc with ((rfl | rfl) | rfl) | rfl <;> decide
  · simp only [List.mem_cons, List.not_mem_nil, or_false] at hc
    rcases hc with rfl | rfl | rfl <;> decide

lemma digitRun_append {t : List Char} (ht : Stops t) (s : List Char) :
    Numeral.digitRun (s ++ t) = ((Numeral.digitRun s).1, (Numeral.digitRun s).2 ++ t) := by
  unfold Numeral.digitRun
  induction s with
  | nil =>
    cases t with
    | nil => rfl
    | cons c t => simp [(ht.head_ne (by simp : c ∈ (c :: t).head?)).1]
  | cons c s ih =>
    cases hc : c.isDigit <;> simp_all

/-- A reader of the front of a text is not disturbed by what comes behind a number. -/
lemma readFraction_append {t : List Char} (ht : Stops t) (s : List Char) :
    readFraction (s ++ t) = ((readFraction s).1, (readFraction s).2 ++ t) := by
  cases s with
  | nil =>
    cases t with
    | nil => rfl
    | cons c t =>
      have hc := (ht.head_ne (by simp : c ∈ (c :: t).head?)).2
      unfold readFraction
      simp_all
  | cons c s =>
    by_cases hc : c = '.'
    · subst hc
      simp only [List.cons_append, readFraction, digitRun_append ht]
      generalize Numeral.digitRun s = p
      obtain ⟨ds, rest⟩ := p
      cases ds <;> rfl
    · unfold readFraction
      simp_all

lemma sign_append {t : List Char} (ht : Stops t) (s : List Char) :
    Numeral.sign (s ++ t) = ((Numeral.sign s).1, (Numeral.sign s).2 ++ t) := by
  cases s with
  | nil =>
    cases t with
    | nil => rfl
    | cons c t =>
      have hc := (ht.head_ne (by simp : c ∈ (c :: t).head?)).2
      unfold Numeral.sign
      simp_all
  | cons c s =>
    by_cases hminus : c = '-'
    · subst hminus
      rfl
    · by_cases hplus : c = '+'
      · subst hplus
        rfl
      · unfold Numeral.sign
        simp_all

lemma readPower_append {t : List Char} (ht : Stops t) (s : List Char) :
    readPower (s ++ t) = ((readPower s).1, (readPower s).2 ++ t) := by
  cases s with
  | nil =>
    cases t with
    | nil => rfl
    | cons c t =>
      have hc := (ht.head_ne (by simp : c ∈ (c :: t).head?)).2
      unfold readPower
      simp_all
  | cons c s =>
    by_cases hc : (c == 'e' || c == 'E') = true
    · simp only [List.cons_append, readPower, hc, if_true, sign_append ht, digitRun_append ht]
      generalize Numeral.digitRun (Numeral.sign s).2 = p
      obtain ⟨ds, rest⟩ := p
      cases ds <;> rfl
    · simp only [List.cons_append, readPower, hc, Bool.false_eq_true, if_false]

/-- The digits before the point, and the rest of the text. -/
def wholePart (s : List Char) : List Char × List Char :=
  match s with
  | '0' :: rest => (['0'], rest)
  | s => Numeral.digitRun s

lemma wholePart_append {t : List Char} (ht : Stops t) (s : List Char) :
    wholePart (s ++ t) = ((wholePart s).1, (wholePart s).2 ++ t) := by
  cases s with
  | nil =>
    have hzero : ∀ r, t ≠ '0' :: r := by
      rintro r rfl
      exact absurd (ht.head_ne (c := '0') rfl).1 (by decide)
    have hrun := digitRun_append ht []
    unfold wholePart
    split
    · next h => exact absurd h (hzero _)
    · exact hrun
  | cons c s =>
    by_cases hc : c = '0'
    · subst hc
      rfl
    · unfold wholePart
      simp only [List.cons_append]
      split
      · simp_all
      · split
        · simp_all
        · exact digitRun_append ht (c :: s)

/-- The number that the parts of a numeral stand for. -/
def numberOf? (negative : Bool) (whole : List Char) (fraction : Option (List Char))
    (power : Option Int) : Option Number :=
  if whole.isEmpty then none
  else if fraction.isNone && power.isNone then
    if whole.length ≤ Number.maxDigits then
      some (.int (if negative then -(Numeral.natural whole : Int) else Numeral.natural whole))
    else none
  else some (.real (Numeral.ofScientific negative (Numeral.natural (whole ++ fraction.getD []))
    (power.getD 0 - (fraction.getD []).length)))

/-- A numeral is read part by part. -/
lemma readUnsigned_eq (negative : Bool) (s : List Char) : readUnsigned negative s =
    (numberOf? negative (wholePart s).1 (readFraction (wholePart s).2).1
      (readPower (readFraction (wholePart s).2).2).1).map
      fun x => (x, (readPower (readFraction (wholePart s).2).2).2) := by
  have hread : readUnsigned negative s =
      if (wholePart s).1.isEmpty then none
      else if (readFraction (wholePart s).2).1.isNone &&
          (readPower (readFraction (wholePart s).2).2).1.isNone then
        if (wholePart s).1.length ≤ Number.maxDigits then
          some (.int (if negative then -(Numeral.natural (wholePart s).1 : Int)
            else Numeral.natural (wholePart s).1), (readPower (readFraction (wholePart s).2).2).2)
        else none
      else some (.real (Numeral.ofScientific negative
        (Numeral.natural ((wholePart s).1 ++ (readFraction (wholePart s).2).1.getD []))
        ((readPower (readFraction (wholePart s).2).2).1.getD 0 -
          ((readFraction (wholePart s).2).1.getD []).length)),
        (readPower (readFraction (wholePart s).2).2).2) := rfl
  rw [hread]
  unfold numberOf?
  split
  · rfl
  · split
    · split
      · rfl
      · rfl
    · rfl

lemma readUnsigned_append {t : List Char} (ht : Stops t) (negative : Bool) (s : List Char) :
    readUnsigned negative (s ++ t) =
      (readUnsigned negative s).map fun p => (p.1, p.2 ++ t) := by
  rw [readUnsigned_eq, readUnsigned_eq, wholePart_append ht, readFraction_append ht, readPower_append ht,
    Option.map_map]
  rfl

lemma after?_append {p s : List Char} (t : List Char) {r : List Char}
    (h : Chars.after? p s = some r) : Chars.after? p (s ++ t) = some (r ++ t) := by
  rw [Chars.after?_eq_some_iff] at h ⊢
  rw [h, List.append_assoc]

lemma exists_digit_of_readUnsigned {negative : Bool} {s : List Char} {p : Number × List Char}
    (h : readUnsigned negative s = some p) : ∃ d r, s = d :: r ∧ d.isDigit = true := by
  cases s with
  | nil => simp [readUnsigned, Numeral.digitRun] at h
  | cons d r =>
    refine ⟨d, r, rfl, ?_⟩
    cases hd : d.isDigit with
    | true => rfl
    | false =>
    have hzero : d ≠ '0' := by
      rintro rfl
      exact absurd hd (by decide)
    have hwhole : (wholePart (d :: r)).1 = [] := by
      unfold wholePart
      split
      · simp_all
      · simp [Numeral.digitRun, hd]
    rw [readUnsigned_eq, hwhole] at h
    cases h

/-- The ways in which a number can begin. -/
lemma readNumber_cases {s : List Char} {p : Number × List Char} (h : readNumber s = some p) :
    (∃ r, s = "NaN".toList ++ r ∧ p = (.real Double.nan, r)) ∨
    (∃ r, s = "Infinity".toList ++ r ∧ p = (.real Double.infinity, r)) ∨
    (∃ r, s = "-Infinity".toList ++ r ∧ p = (.real (-Double.infinity), r)) ∨
    (∃ d r, s = '-' :: d :: r ∧ d.isDigit = true ∧ readUnsigned true (d :: r) = some p) ∨
    (∃ d r, s = d :: r ∧ d.isDigit = true ∧ readUnsigned false (d :: r) = some p) := by
  unfold readNumber at h
  split at h
  · next r hr => exact .inl ⟨r, Chars.after?_eq_some_iff.1 hr, (Option.some.inj h).symm⟩
  · split at h
    · next r hr => exact .inr (.inl ⟨r, Chars.after?_eq_some_iff.1 hr, (Option.some.inj h).symm⟩)
    · split at h
      · next r hr =>
        exact .inr (.inr (.inl ⟨r, Chars.after?_eq_some_iff.1 hr, (Option.some.inj h).symm⟩))
      · split at h
        · obtain ⟨d, r, rfl, hd⟩ := exists_digit_of_readUnsigned h
          exact .inr (.inr (.inr (.inl ⟨d, r, rfl, hd, h⟩)))
        · obtain ⟨d, r, rfl, hd⟩ := exists_digit_of_readUnsigned h
          exact .inr (.inr (.inr (.inr ⟨d, r, rfl, hd, h⟩)))

lemma readNumber_negative {d : Char} (hd : d.isDigit = true) (r : List Char) :
    readNumber ('-' :: d :: r) = readUnsigned true (d :: r) := by
  have hne : 'I' ≠ d := by
    rintro rfl
    exact absurd hd (by decide)
  simp [readNumber, Chars.after?, hne]

lemma readNumber_positive {d : Char} (hd : d.isDigit = true) (r : List Char) :
    readNumber (d :: r) = readUnsigned false (d :: r) := by
  have hne : 'N' ≠ d ∧ 'I' ≠ d ∧ '-' ≠ d := by
    refine ⟨?_, ?_, ?_⟩ <;>
    · rintro rfl
      exact absurd hd (by decide)
  have hwords : Chars.after? "NaN".toList (d :: r) = none ∧
      Chars.after? "Infinity".toList (d :: r) = none ∧
      Chars.after? "-Infinity".toList (d :: r) = none := by
    simp [Chars.after?, hne]
  simp only [readNumber, hwords]
  split
  · next h => exact absurd (List.cons.inj h).1 (Ne.symm hne.2.2)
  · rfl

/-- A number is read in front of anything that does not go on with it. -/
lemma readNumber_append {t : List Char} (ht : Stops t) {s : List Char} {x : Number}
    (h : readNumber s = some (x, [])) : readNumber (s ++ t) = some (x, t) := by
  rcases readNumber_cases h with ⟨r, rfl, hp⟩ | ⟨r, rfl, hp⟩ | ⟨r, rfl, hp⟩ |
    ⟨d, r, rfl, hd, hp⟩ | ⟨d, r, rfl, hd, hp⟩
  · obtain ⟨rfl, rfl⟩ := Prod.mk.inj hp
    rfl
  · obtain ⟨rfl, rfl⟩ := Prod.mk.inj hp
    rfl
  · obtain ⟨rfl, rfl⟩ := Prod.mk.inj hp
    rfl
  · have happend := readUnsigned_append ht true (d :: r)
    rw [List.cons_append, List.cons_append, readNumber_negative hd, ← List.cons_append, happend, hp]
    rfl
  · have happend := readUnsigned_append ht false (d :: r)
    rw [List.cons_append, readNumber_positive hd, ← List.cons_append, happend, hp]
    rfl

/-! ### The characters of numbers -/

/-- A character of the text of a number. -/
def isNumberChar (c : Char) : Bool :=
  c.isDigit || "+-.eENaIinfty".toList.contains c

/-- What is left of a text when a number is read from its front. -/
def Leaves (s rest : List Char) : Prop :=
  ∃ p, s = p ++ rest ∧ ∀ c ∈ p, isNumberChar c = true

lemma Leaves.refl (s : List Char) : Leaves s s :=
  ⟨[], rfl, fun _ h => nomatch h⟩

lemma Leaves.trans {s t u : List Char} (hst : Leaves s t) (htu : Leaves t u) : Leaves s u := by
  obtain ⟨p, rfl, hp⟩ := hst
  obtain ⟨q, rfl, hq⟩ := htu
  exact ⟨p ++ q, (List.append_assoc _ _ _).symm, List.forall_mem_append.2 ⟨hp, hq⟩⟩

lemma Leaves.cons {c : Char} (hc : isNumberChar c = true) {s t : List Char} (h : Leaves s t) :
    Leaves (c :: s) t := by
  obtain ⟨p, rfl, hp⟩ := h
  exact ⟨c :: p, rfl, List.forall_mem_cons.2 ⟨hc, hp⟩⟩

lemma isNumberChar_of_isDigit {c : Char} (h : c.isDigit = true) : isNumberChar c = true := by
  rw [isNumberChar, h, Bool.true_or]

lemma leaves_digitRun (s : List Char) : Leaves s (Numeral.digitRun s).2 := by
  refine ⟨s.takeWhile Char.isDigit, List.takeWhile_append_dropWhile.symm, fun c hc => ?_⟩
  exact isNumberChar_of_isDigit (List.all_eq_true.1 List.all_takeWhile c hc)

lemma leaves_wholePart (s : List Char) : Leaves s (wholePart s).2 := by
  unfold wholePart
  split
  · exact .cons (by decide) (.refl _)
  · exact leaves_digitRun _

lemma leaves_readFraction (s : List Char) : Leaves s (readFraction s).2 := by
  unfold readFraction
  split
  · next rest =>
    have hrun := leaves_digitRun rest
    split
    · exact .refl _
    · next heq =>
      rw [heq] at hrun
      exact .cons (by decide) hrun
  · exact .refl _

lemma leaves_sign (s : List Char) : Leaves s (Numeral.sign s).2 := by
  unfold Numeral.sign
  split
  · exact .cons (by decide) (.refl _)
  · exact .cons (by decide) (.refl _)
  · exact .refl _

lemma leaves_readPower (s : List Char) : Leaves s (readPower s).2 := by
  unfold readPower
  split
  · next e rest =>
    split
    · next he =>
      have he : isNumberChar e = true := by
        rcases Bool.or_eq_true_iff.1 he with he | he
        · rw [beq_iff_eq.1 he]
          decide
        · rw [beq_iff_eq.1 he]
          decide
      have hsign := leaves_sign rest
      split
      · next negative rest' hrest =>
        rw [hrest] at hsign
        split
        · exact .refl _
        · next hrun =>
          have h := leaves_digitRun rest'
          rw [hrun] at h
          exact .cons he (hsign.trans h)
    · exact .refl _
  · exact .refl _

lemma leaves_readUnsigned {negative : Bool} {s rest : List Char} {x : Number}
    (h : readUnsigned negative s = some (x, rest)) : Leaves s rest := by
  rw [readUnsigned_eq, Option.map_eq_some_iff] at h
  obtain ⟨y, -, hy⟩ := h
  obtain ⟨-, rfl⟩ := Prod.mk.inj hy
  exact (leaves_wholePart s).trans ((leaves_readFraction _).trans (leaves_readPower _))

/-- A number is made of its characters, and there is at least one. -/
lemma isNumberChar_of_readNumber {s : List Char} {x : Number} (h : readNumber s = some (x, [])) :
    s ≠ [] ∧ ∀ c ∈ s, isNumberChar c = true := by
  have hleaves : ∀ {s : List Char}, Leaves s [] → ∀ c ∈ s, isNumberChar c = true := by
    rintro s ⟨p, rfl, hp⟩
    rwa [List.append_nil]
  rcases readNumber_cases h with ⟨r, rfl, hp⟩ | ⟨r, rfl, hp⟩ | ⟨r, rfl, hp⟩ |
    ⟨d, r, rfl, hd, hp⟩ | ⟨d, r, rfl, hd, hp⟩
  · obtain ⟨-, rfl⟩ := Prod.mk.inj hp
    decide
  · obtain ⟨-, rfl⟩ := Prod.mk.inj hp
    decide
  · obtain ⟨-, rfl⟩ := Prod.mk.inj hp
    decide
  · exact ⟨List.cons_ne_nil _ _, hleaves (.cons (by decide) (leaves_readUnsigned hp))⟩
  · exact ⟨List.cons_ne_nil _ _, hleaves (leaves_readUnsigned hp)⟩

end Json
end UmlDraw
