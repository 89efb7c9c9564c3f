/-
# The lines of a timing diagram

Every part that a line is made of is an honest scan, so what a line can mean is known from the last
step of its form.

The main statements are

* `Numeral.decimal?_of_digits`: the double that digits stand for;
* `Line.read?_at` and `Line.read?_behind`: lines that go to an instant.
-/
import Mathlib.Data.List.TakeWhile
import Mathlib.Tactic.IntervalCases
import UmlDraw.Proofs.Text.Lines
import UmlDraw.Proofs.Text.Reading
import UmlDraw.Proofs.Text.Result
import UmlDraw.Timing.Line
import UmlDraw.Timing.Reader

namespace UmlDraw
namespace Timing
namespace Line

open Scan

instance honest_number : number.Honest := by
  unfold number
  infer_instance

instance honest_time : time.Honest := by
  refine Honest.anyOf fun p hp => ?_
  simp only [List.mem_cons, List.not_mem_nil, or_false] at hp
  rcases hp with rfl | rfl | rfl <;> infer_instance

instance honest_labelled : labelled.Honest := by
  unfold labelled
  infer_instance

instance honest_compactWord : compactWord.Honest :=
  inferInstanceAs (Scan.present _).Honest

instance honest_stereotype : stereotype.Honest := by
  unfold stereotype
  infer_instance

instance honest_setting (word : String) : (setting word).Honest := by
  unfold setting
  infer_instance

instance honest_noteHead : noteHead.Honest := by
  unfold noteHead
  constructor
  iterate 10 refine Yields.bind fun _ => ?_
  exact Yields.pure trivial

instance honest_label : label.Honest := by
  unfold label
  infer_instance

instance honest_highlightColor : highlightColor.Honest := by
  unfold highlightColor
  infer_instance

instance honest_sign : sign.Honest := by
  unfold sign
  infer_instance

instance honest_state : state.Honest := by
  refine Honest.anyOf fun p hp => ?_
  simp only [List.mem_cons, List.not_mem_nil, or_false] at hp
  rcases hp with rfl | rfl | rfl <;> infer_instance

instance honest_changeHead : changeHead.Honest := by
  unfold changeHead
  constructor
  iterate 9 refine Yields.bind fun _ => ?_
  exact Yields.pure trivial

end Line
end Timing

/-! ## Instants written with digits

An instant that is written with digits alone is the double nearest to them, as an integer.  Such an
instant behind an `@` or behind `@+` makes a line that goes there. -/


/-! ### Digits -/

namespace Numeral

/-- A text of decimal digits. -/
structure IsDigits (ds : List Char) : Prop where
  ne_nil : ds ≠ []
  digits : ∀ c ∈ ds, c.isDigit = true

variable {ds : List Char} {c : Char}

lemma mem_digits (h : c.isDigit = true) :
    c ∈ ['0', '1', '2', '3', '4', '5', '6', '7', '8', '9'] := by
  obtain ⟨hlow, hhigh⟩ := Char.isDigit_iff_toNat.1 h
  rw [← Char.ofNat_toNat c]
  generalize c.toNat = n at hlow hhigh
  change 48 ≤ n at hlow
  change n ≤ 57 at hhigh
  interval_cases n <;> decide

/-- A digit is no blank and no sign, and it is its own ASCII digit and its own capital. -/
structure IsDigit (c : Char) : Prop where
  digit : Letter.isDigit c = true
  blank : Letter.isBlank c = false
  ascii : asciiDigit c = c
  capital : Letter.capital c = c
  sign : c ∉ ['-', '+', '_', ':', '/', '\n', '\r']

lemma isDigit_of (h : c.isDigit = true) : IsDigit c := by
  have hall : ∀ c ∈ ['0', '1', '2', '3', '4', '5', '6', '7', '8', '9'],
      Letter.isDigit c = true ∧ Letter.isBlank c = false ∧ asciiDigit c = c ∧
        Letter.capital c = c ∧ c ∉ ['-', '+', '_', ':', '/', '\n', '\r'] := by decide
  obtain ⟨hdigit, hblank, hascii, hcapital, hsign⟩ := hall c (mem_digits h)
  exact ⟨hdigit, hblank, hascii, hcapital, hsign⟩

lemma IsDigits.isDigit (h : IsDigits ds) (hc : c ∈ ds) : IsDigit c :=
  isDigit_of (h.digits c hc)

lemma IsDigits.map_eq (h : IsDigits ds) {f : Char → Char} (hf : ∀ c, IsDigit c → f c = c) :
    ds.map f = ds := by
  conv_rhs => rw [← List.map_id ds]
  exact List.map_congr_left fun c hc => hf c (h.isDigit hc)

/-- Digits are no word that has another letter. -/
lemma IsDigits.ne (h : IsDigits ds) {w : String} (hw : ∃ c ∈ w.toList, c.isDigit = false) :
    String.ofList ds ≠ w := by
  rintro rfl
  obtain ⟨c, hc, hdigit⟩ := hw
  rw [String.toList_ofList] at hc
  rw [h.digits c hc] at hdigit
  cases hdigit

lemma IsDigits.trim (h : IsDigits ds) : Chars.trim ds = ds := by
  rw [Chars.trim,
    Chars.trimLeft_of_head fun c hc => (h.isDigit (List.mem_of_mem_head? hc)).blank,
    Chars.trimRight_of_getLast fun c hc => (h.isDigit (List.mem_of_mem_getLast? hc)).blank]

lemma dropUnderscores?_of_digits (h : ∀ c ∈ ds, c.isDigit = true) {before : Char}
    (hbefore : before ≠ '_') : dropUnderscores? before ds = some ds := by
  induction ds generalizing before with
  | nil => simp [dropUnderscores?, hbefore]
  | cons c ds ih =>
    obtain ⟨hc, hds⟩ := List.forall_mem_cons.1 h
    have hne : c ≠ '_' := fun e => (isDigit_of hc).sign (by simp [e])
    unfold dropUnderscores?
    split
    · next e => cases e
    · next e => exact absurd (List.cons.inj e).1 hne
    · next c' s' e =>
      obtain ⟨rfl, rfl⟩ := List.cons.inj e
      simp [hbefore, ih hds hne]

lemma IsDigits.sign_eq (h : IsDigits ds) : sign ds = (false, ds) := by
  obtain ⟨c, rest, rfl⟩ := List.exists_cons_of_ne_nil h.ne_nil
  have hc := (h.isDigit List.mem_cons_self).sign
  unfold sign
  split
  · next e => exact absurd (List.cons.inj e).1 (by rintro rfl; simp at hc)
  · next e => exact absurd (List.cons.inj e).1 (by rintro rfl; simp at hc)
  · rfl

lemma IsDigits.unsigned?_eq (h : IsDigits ds) (negative : Bool) :
    unsigned? negative ds = some (ofScientific negative (natural ds) 0) := by
  have hrun : digitRun ds = (ds, []) := by
    rw [digitRun, List.takeWhile_eq_self_iff.2 h.digits, List.dropWhile_eq_nil_iff.2 h.digits]
  have hempty : ds.isEmpty = false := by simpa using h.ne_nil
  simp [unsigned?, hrun, hempty, power?]

/-- Digits stand for the double nearest to their number. -/
theorem decimal?_of_digits (h : IsDigits ds) :
    decimal? ds = some (ofScientific false (natural ds) 0) := by
  have hinf := h.ne (w := "INF") ⟨'I', by decide, rfl⟩
  have hinfinity := h.ne (w := "INFINITY") ⟨'I', by decide, rfl⟩
  have hnan := h.ne (w := "NAN") ⟨'N', by decide, rfl⟩
  simp [decimal?, h.trim, h.map_eq fun _ hc => hc.ascii, h.map_eq fun _ hc => hc.capital,
    dropUnderscores?_of_digits h.digits (by decide : ' ' ≠ '_'), h.sign_eq, hinf, hinfinity, hnan,
    h.unsigned?_eq]

end Numeral

/-! ### Lines -/

namespace Timing
namespace Line

open Scan Numeral

variable {ds : List Char} {β : Type}

/-- The instant that digits stand for. -/
def instantOf (ds : List Char) : Number :=
  Number.clean (ofScientific false (natural ds) 0)

lemma run_number (h : IsDigits ds) (next : Number → List Char → Option β) :
    number.run ds next = next (instantOf ds) [] := by
  have hsign : ∀ next : Option Char → List Char → Option β,
      (optional (char '-')).run ds next = next none ds := by
    intro next
    obtain ⟨d, rest, rfl⟩ := List.exists_cons_of_ne_nil h.ne_nil
    have hd : d ≠ '-' := fun e => (h.isDigit List.mem_cons_self).sign (by simp [e])
    have hchar : (some <$> char '-').run (d :: rest) next = none :=
      run_char_of_ne hd rest fun c => next (some c)
    rw [Scan.optional, run_either, hchar, Option.none_or]
    rfl
  have hdigits : ∀ next : String → List Char → Option β,
      (run1 Letter.isDigit).run ds next = next (String.ofList ds) [] := by
    intro next
    have hall : ∀ c ∈ ds, Letter.isDigit c = true := fun c hc => (h.isDigit hc).digit
    simp only [run1, List.takeWhile_eq_self_iff.2 hall, List.dropWhile_eq_nil_iff.2 hall]
    obtain ⟨d, rest, rfl⟩ := List.exists_cons_of_ne_nil h.ne_nil
    rfl
  have hnumber : number.run ds next =
      (optional (char '-')).run ds fun _ r => (run1 Letter.isDigit).run r fun _ r =>
        (optional do let _ ← char '.'; run1 Letter.isDigit).run r fun _ r =>
          next (Number.clean ((decimal?
            (String.ofList (ds.take (ds.length - r.length))).toList).getD Double.nan)) r := rfl
  have hplaces : ∀ next : Option String → List Char → Option β,
      (optional do let _ ← char '.'; run1 Letter.isDigit).run [] next = next none [] :=
    fun _ => rfl
  rw [hnumber, hsign, hdigits, hplaces, List.length_nil, Nat.sub_zero, List.take_length,
    String.toList_ofList, decimal?_of_digits h, Option.getD_some, instantOf]

/-- The three ways to write an instant. -/
lemma run_time_eq (s : List Char) (next : TimeToken → List Char → Option β) :
    time.run s next =
      ((char '+').run s fun _ r => number.run r fun n => next (.relative n)).or
        ((number.run s fun n => next (.absolute n)).or
          ((char ':').run s fun _ r => Token.code.run r fun c => next (.named c))) := by
  unfold time
  rw [anyOf, run_either, anyOf, run_either, anyOf, run_either]
  refine congrArg _ (congrArg _ ?_)
  exact Option.or_none

lemma run_time_of_digits (h : IsDigits ds) (next : TimeToken → List Char → Option β) :
    time.run ds next = next (.absolute (instantOf ds)) [] := by
  obtain ⟨d, rest, rfl⟩ := List.exists_cons_of_ne_nil h.ne_nil
  have hd := (h.isDigit List.mem_cons_self).sign
  rw [run_time_eq, run_number h, run_char_of_ne (by rintro rfl; simp at hd),
    run_char_of_ne (by rintro rfl; simp at hd), Option.none_or, Option.or_none]

lemma run_time_plus (h : IsDigits ds) (next : TimeToken → List Char → Option β) :
    time.run ('+' :: ds) next = next (.relative (instantOf ds)) [] := by
  have hnumber : (number.run ('+' :: ds) fun n => next (.absolute n)) = none := rfl
  rw [run_time_eq, run_char_cons, run_number h, hnumber, run_char_of_ne (by decide),
    Option.none_or, Option.or_none]

variable {s : List Char} {t : TimeToken}

/-- In front of a character that is no blank, neither a name nor the end of the line follows. -/
lemma run_name_of_not_blank {c : Char} (hc : Letter.isBlank c = false)
    (next : Option String → List Char → Option β) :
    ((Scan.optional do Token.asWord; let _ ← char ':'; Token.code).run (c :: s) fun name r =>
      Token.lineEnd.run r fun _ => next name) = none := by
  have hblanks1 : ∀ next : Unit → List Char → Option β, blanks1.run (c :: s) next = none := by
    intro next
    change ((satisfy Letter.isBlank).run (c :: s) fun _ r => (skip _).run r next) = none
    simp [satisfy, hc]
  have hend : ∀ next : Unit → List Char → Option β, Token.lineEnd.run (c :: s) next = none := by
    intro next
    change longest Letter.isBlank (fun _ r => atEnd.run r next) [] (c :: s) = none
    rw [longest, hc, if_neg Bool.false_ne_true]
    rfl
  rw [Scan.optional, run_either]
  exact Option.or_eq_none_iff.2 ⟨hblanks1 _, hend _⟩

/-- What stands behind an `@` without blanks, up to the end of the line. -/
lemma whole_readAt (hne : s ≠ []) (hblank : ∀ c ∈ s, Letter.isBlank c = false) :
    readAt.whole ('@' :: s) = some (match time.whole s with
      | some t => .atTime t none
      | none => .atPlayer (String.ofList s)) := by
  obtain ⟨d, x, rfl⟩ := List.exists_cons_of_ne_nil hne
  obtain ⟨hd, hx⟩ := List.forall_mem_cons.1 hblank
  have hplain : ∀ c ∈ x, (!Letter.isBlank c) = true := by simpa using hx
  have hstep : ∀ next : String → List Char → Option Line,
      (∀ w c r, Letter.isBlank c = false → next w (c :: r) = none) →
      (few1 fun c => !Letter.isBlank c).run (d :: x) next = next (String.ofList (d :: x)) [] := by
    intro next hnext
    have hshortest : shortest (fun c => !Letter.isBlank c)
        (fun seen => next (String.ofList seen.reverse)) [d] x = shortest (fun c => !Letter.isBlank c)
          (fun seen => next (String.ofList seen.reverse)) (x.reverse ++ [d]) [] := by
      rw [← shortest_append hplain [d], List.append_nil]
      intro a b hab hb
      obtain ⟨c, r, rfl⟩ := List.exists_cons_of_ne_nil hb
      exact hnext _ c _ (hx c (by simp [hab]))
    simp only [few1, hd, Bool.not_false, if_true]
    rw [hshortest, shortest, List.reverse_append, List.reverse_reverse]
    rfl
  have hrun : readAt.whole ('@' :: d :: x) =
      (few1 fun c => !Letter.isBlank c).run (d :: x) fun w r =>
        (Scan.optional do Token.asWord; let _ ← char ':'; Token.code).run r fun name r =>
          Token.lineEnd.run r fun _ r =>
            (match time.whole w.toList with
            | some t => (pure (atTime t name) : Scan Line)
            | none => pure (atPlayer w)).run r fun l r => if r.isEmpty then some l else none := rfl
  rw [hrun, hstep _ fun w c r hc => run_name_of_not_blank hc _, String.toList_ofList]
  change (match time.whole (d :: x) with
    | some t => (pure (atTime t none) : Scan Line)
    | none => pure (atPlayer (String.ofList (d :: x)))).run [] _ = _
  cases time.whole (d :: x) <;> rfl

/-- An instant behind an `@`, up to the end of the line. -/
lemma read?_of_time (hne : s ≠ []) (hblank : ∀ c ∈ s, Letter.isBlank c = false)
    (ht : ∀ {β : Type} (next : TimeToken → List Char → Option β), time.run s next = next t []) :
    read? ('@' :: s) = some (.atTime t none) := by
  have hconstraint : readConstraint.whole ('@' :: s) = none := by
    change time.run s _ = none
    rw [ht]
    rfl
  have hbefore : (anyOf (forms.take 13)).whole ('@' :: s) = none := by
    have hfirst : (anyOf (forms.take 11)).whole ('@' :: s) = none := rfl
    have hlast : (anyOf [readConstraint, readMessage]).whole ('@' :: s) = none := by
      have hmessage : readMessage.whole ('@' :: s) = none := rfl
      rw [Scan.whole, anyOf, run_either, anyOf, run_either]
      exact Option.or_eq_none_iff.2 ⟨hconstraint, Option.or_eq_none_iff.2 ⟨hmessage, rfl⟩⟩
    have hsplit : forms.take 13 = forms.take 11 ++ [readConstraint, readMessage] := rfl
    rw [Scan.whole, hsplit]
    exact (run_anyOf_append hfirst).trans hlast
  refine whole_anyOf 13 rfl hbefore ?_
  rw [whole_readAt hne hblank, Scan.whole, ht]
  rfl

/-- The line that goes to an instant. -/
theorem read?_at (h : IsDigits ds) :
    read? ('@' :: ds) = some (.atTime (.absolute (instantOf ds)) none) :=
  read?_of_time h.ne_nil (fun _ hc => (h.isDigit hc).blank) (run_time_of_digits h)

/-- The line that goes to an instant behind the last one. -/
theorem read?_behind (h : IsDigits ds) :
    read? ('@' :: '+' :: ds) = some (.atTime (.relative (instantOf ds)) none) := by
  refine read?_of_time (List.cons_ne_nil _ _) ?_ (run_time_plus h)
  exact List.forall_mem_cons.2 ⟨rfl, fun _ hc => (h.isDigit hc).blank⟩

end Line
end Timing
end UmlDraw
