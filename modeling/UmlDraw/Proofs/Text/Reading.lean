/-
# Reading a line as one of several forms

A line is read as the first form that fits.  So what a line means follows from two facts: the forms
before the right one have no reading of it, and the right one has.  That a form has the right
reading is shown piece by piece: a scan *takes* the front of a text if this is the first of its
readings with which what follows succeeds.

The main statements are

* `Scan.whole_anyOf`: what a line means;
* `Scan.Takes.bind` and `Scan.Takes.whole`: readings are put together;
* `Scan.takes_few1_char`, `Scan.takes_many1_char` and `Scan.takes_many1_last`: a run up to a
  character that ends it;
* `Scan.Offers.bind` and the lemmas beside it: a scan succeeds if one of its readings does.
-/
import UmlDraw.Proofs.Text.Search

namespace UmlDraw
namespace Scan

variable {α β : Type} {s : List Char} {next : α → List Char → Option β}

lemma run_either (p q : Scan α) (s : List Char) (next : α → List Char → Option β) :
    (either p q).run s next = (p.run s next).or (q.run s next) := by
  unfold either
  dsimp only
  cases p.run s next <;> rfl

lemma run_anyOf_append {ps qs : List (Scan α)} (h : (anyOf ps).run s next = none) :
    (anyOf (ps ++ qs)).run s next = (anyOf qs).run s next := by
  induction ps with
  | nil => rfl
  | cons p ps ih =>
    rw [anyOf, run_either, Option.or_eq_none_iff] at h
    rw [List.cons_append, anyOf, run_either, h.1, Option.none_or]
    exact ih h.2

lemma run_anyOf_cons {p : Scan α} {b : β} (h : p.run s next = some b) (ps : List (Scan α)) :
    (anyOf (p :: ps)).run s next = some b := by
  rw [anyOf, run_either, h, Option.some_or]

/-- What a line means: the forms before the right one have no reading of it. -/
lemma whole_anyOf {ps : List (Scan α)} {p : Scan α} {a : α} (n : Nat) (hn : ps[n]? = some p)
    (hbefore : (anyOf (ps.take n)).whole s = none) (hp : p.whole s = some a) :
    (anyOf ps).whole s = some a := by
  obtain ⟨hlt, rfl⟩ := List.getElem?_eq_some_iff.1 hn
  rw [← List.take_append_drop n ps, List.drop_eq_getElem_cons hlt]
  exact (run_anyOf_append hbefore).trans (run_anyOf_cons hp _)

/-- A run of one character up to the end of the text. -/
lemma run_skip_replicate (c : Char) (n : Nat) (next : Unit → List Char → Option β)
    (hnext : ∀ d s, (d == c) = true → next () (d :: s) = none) :
    (skip (· == c)).run (List.replicate n c) next = next () [] := by
  change longest _ (fun _ => next ()) [] _ = _
  rw [longest_eq fun _ d s hd => hnext d s hd]
  simp

/-! ### What a scan takes -/

/-- The scan reads the front of a text, with a given result and rest, whenever what follows succeeds
on them. -/
def Takes (p : Scan α) (s : List Char) (a : α) (t : List Char) : Prop :=
  ∀ ⦃β : Type⦄ (next : α → List Char → Option β) (b : β),
    next a t = some b → p.run s next = some b

section Takes

variable {γ : Type} {p q : Scan α} {a : α} {t x : List Char} {c : Char}

lemma Takes.whole (h : p.Takes s a []) : p.whole s = some a :=
  h _ _ rfl

lemma Takes.bind {f : α → Scan γ} {g : γ} {u : List Char} (h : p.Takes s a t)
    (hf : (f a).Takes t g u) : (p >>= f).Takes s g u :=
  fun _ next b hb => h _ b (hf next b hb)

lemma takes_pure (a : α) (s : List Char) : (pure a : Scan α).Takes s a s :=
  fun _ _ _ h => h

lemma Takes.either_left (h : p.Takes s a t) (q : Scan α) : (either p q).Takes s a t := by
  intro β next b hb
  rw [run_either, h next b hb, Option.some_or]

lemma Takes.either_right (h : q.Takes s a t)
    (hp : ∀ ⦃β : Type⦄ (next : α → List Char → Option β), p.run s next = none) :
    (either p q).Takes s a t := by
  intro β next b hb
  rw [run_either, hp, Option.none_or, h next b hb]

lemma Takes.optional (h : p.Takes s a t) : (optional p).Takes s (some a) t :=
  Takes.either_left (fun _ next b hb => h (next ∘ some) b hb) _

lemma takes_satisfy {k : Char → Bool} (hc : k c = true) (s : List Char) :
    (satisfy k).Takes (c :: s) c s :=
  fun _ _ _ hb => (if_pos hc).trans hb

lemma takes_ahead {k : List Char → Bool} (hs : k s = true) : (ahead k).Takes s () s :=
  fun _ _ _ hb => (if_pos hs).trans hb

lemma takes_text {w : String} (h : Chars.after? w.toList s = some t) : (text w).Takes s () t := by
  intro β next b hb
  rw [run_text, h]
  exact hb

lemma takes_literal {w : String} (h : Chars.after? w.toList s = some t) :
    (literal w).Takes s w t :=
  (takes_text h).bind (takes_pure w t)

lemma takes_char (c : Char) (s : List Char) : (char c).Takes (c :: s) c s := by
  intro β next b hb
  rw [run_char_cons, hb]

lemma takes_blanks (hc : Letter.isBlank c = false) (s : List Char) :
    blanks.Takes (' ' :: c :: s) () (c :: s) := by
  intro β next b hb
  have hrest : longest Letter.isBlank (fun _ => next ()) [' '] (c :: s) = some b := by
    rw [longest, hc, if_neg Bool.false_ne_true, hb]
  have hspace : Letter.isBlank ' ' = true := rfl
  change longest Letter.isBlank (fun _ => next ()) [] (' ' :: c :: s) = some b
  rw [longest, if_pos hspace, hrest]

/-- The shortest run ends at the first place where what follows can begin. -/
lemma takes_few1_char {p : Char → Bool} (hx : x ≠ []) (hp : ∀ d ∈ x, p d = true) (hc : c ∉ x)
    (s : List Char) :
    (do let w ← few1 p; let _ ← char c; pure w : Scan String).Takes (x ++ c :: s)
      (String.ofList x) s := by
  intro β next b hb
  cases x with
  | nil => exact absurd rfl hx
  | cons d x =>
    obtain ⟨hd, hx⟩ := List.forall_mem_cons.1 hp
    rw [List.mem_cons, not_or] at hc
    change (if p d then shortest p (fun seen rest => (char c).run rest fun _ =>
      next (String.ofList seen.reverse)) [d] (x ++ c :: s) else none) = some b
    rw [if_pos hd, shortest_append hx]
    · refine shortest_of_some ?_
      rw [run_char_cons, List.reverse_append, List.reverse_reverse]
      exact hb
    · -- a character of the run is none that ends it
      intro a' b' hab hb'
      obtain ⟨e, b', rfl⟩ := List.exists_cons_of_ne_nil hb'
      refine run_char_of_ne (fun he => hc.2 ?_) _ _
      rw [hab, ← he]
      exact List.mem_append_right _ (List.mem_cons_self ..)

/-- The longest run ends in front of a character that is not in its class. -/
lemma takes_many1_char {p : Char → Bool} (hx : x ≠ []) (hp : ∀ d ∈ x, p d = true)
    (hc : p c = false) (s : List Char) :
    (do let w ← many1 p; let _ ← char c; pure w : Scan String).Takes (x ++ c :: s)
      (String.ofList x) s := by
  intro β next b hb
  have htake : (x ++ c :: s).takeWhile p = x := by
    rw [List.takeWhile_append_of_pos hp, List.takeWhile_cons_of_neg (by simp [hc]),
      List.append_nil]
  have hdrop : (x ++ c :: s).dropWhile p = c :: s := by
    rw [List.dropWhile_append_of_pos hp, List.dropWhile_cons_of_neg (by simp [hc])]
  have hstop : ∀ (w : String) (d : Char) (u : List Char), p d = true →
      ((char c).run (d :: u) fun _ => next w) = none := by
    intro w d u hd
    refine run_char_of_ne (fun he => ?_) _ _
    rw [he, hc] at hd
    exact nomatch hd
  have hrun : (many1 p).run (x ++ c :: s) (fun w rest => (char c).run rest fun _ => next w) = _ :=
    run_many1 hstop (by rwa [htake])
  rw [htake, hdrop, run_char_cons] at hrun
  exact hrun.trans hb

lemma longest_append {p : Char → Bool} {next : List Char → List Char → Option β} {b : β}
    (hx : ∀ d ∈ x, p d = true) (seen : List Char)
    (h : longest p next (x.reverse ++ seen) s = some b) :
    longest p next seen (x ++ s) = some b := by
  induction x generalizing seen with
  | nil => exact h
  | cons d x ih =>
    obtain ⟨hd, hx⟩ := List.forall_mem_cons.1 hx
    have hrest : longest p next (d :: seen) (x ++ s) = some b := by
      refine ih hx (d :: seen) ?_
      rwa [List.reverse_cons, List.append_assoc, List.singleton_append] at h
    rw [List.cons_append, longest, if_pos hd, hrest]

/-- The longest run of any characters leaves the last character to what follows. -/
lemma takes_many1_last (hx : x ≠ []) (c : Char) :
    (do let w ← many1 fun _ => true; let _ ← char c; atEnd; pure w : Scan String).Takes (x ++ [c])
      (String.ofList x) [] := by
  intro β next b hb
  cases x with
  | nil => exact absurd rfl hx
  | cons d x =>
    refine longest_append (p := fun _ => true) (fun _ _ => rfl) [d] ?_
    -- behind the last character there is none for what follows
    change (char c).run [c] (fun _ u => atEnd.run u fun _ =>
      next (String.ofList (x.reverse ++ [d]).reverse)) = some b
    rw [run_char_cons, List.reverse_append, List.reverse_reverse]
    exact hb

/-! #### Runs, optional parts and repetitions -/

lemma longest_of_head {p : Char → Bool} {next : List Char → List Char → Option β} {seen : List Char}
    (hs : ∀ d ∈ s.head?, p d = false) : longest p next seen s = next seen s := by
  cases s with
  | nil => rfl
  | cons d s => rw [longest, hs d rfl, if_neg Bool.false_ne_true]

/-- A run up to a character that is not in its class. -/
lemma takes_skip {p : Char → Bool} (hx : ∀ d ∈ x, p d = true) (hs : ∀ d ∈ s.head?, p d = false) :
    (skip p).Takes (x ++ s) () s := by
  intro β next b hb
  exact longest_append hx [] ((longest_of_head hs).trans hb)

/-- A run takes all that belongs to its class. -/
lemma takes_skip_dropWhile (p : Char → Bool) (s : List Char) :
    (skip p).Takes s () (s.dropWhile p) := by
  intro β next b hb
  have hlongest (seen : List Char) : longest p (fun _ => next ()) seen s = some b := by
    induction s generalizing seen with
    | nil => exact hb
    | cons d s ih =>
      cases hd : p d with
      | false =>
        rw [List.dropWhile_cons_of_neg (by rw [hd]; exact Bool.false_ne_true)] at hb
        rw [longest, hd, if_neg Bool.false_ne_true, hb]
      | true =>
        rw [List.dropWhile_cons_of_pos hd] at hb
        rw [longest, if_pos hd, ih hb]
  exact hlongest []

lemma takes_many {p : Char → Bool} (hx : ∀ d ∈ x, p d = true) (hs : ∀ d ∈ s.head?, p d = false) :
    (many p).Takes (x ++ s) (String.ofList x) s := by
  intro β next b hb
  refine longest_append hx [] ((longest_of_head hs).trans ?_)
  rw [List.append_nil, List.reverse_reverse]
  exact hb

lemma takes_skip1 {p : Char → Bool} (hne : x ≠ []) (hx : ∀ d ∈ x, p d = true)
    (hs : ∀ d ∈ s.head?, p d = false) : (skip1 p).Takes (x ++ s) () s := by
  obtain ⟨d, x, rfl⟩ := List.exists_cons_of_ne_nil hne
  obtain ⟨hd, hx⟩ := List.forall_mem_cons.1 hx
  refine Takes.bind (a := d) (t := x ++ s) ?_ (takes_skip hx hs)
  intro β next b hb
  exact (if_pos hd).trans hb

lemma takes_many1 {p : Char → Bool} (hne : x ≠ []) (hx : ∀ d ∈ x, p d = true)
    (hs : ∀ d ∈ s.head?, p d = false) : (many1 p).Takes (x ++ s) (String.ofList x) s := by
  intro β next b hb
  obtain ⟨d, x, rfl⟩ := List.exists_cons_of_ne_nil hne
  obtain ⟨hd, hx⟩ := List.forall_mem_cons.1 hx
  refine (if_pos hd).trans (longest_append hx [d] ((longest_of_head hs).trans ?_))
  rw [List.reverse_append, List.reverse_reverse]
  exact hb

/-- The text that a scan captures is what it takes. -/
lemma Takes.captured (h : p.Takes (x ++ s) a s) :
    (Scan.captured p).Takes (x ++ s) (String.ofList x) s := by
  have htake : (x ++ s).take ((x ++ s).length - s.length) = x := by simp
  intro β next b hb
  refine h _ b ?_
  dsimp only
  rw [htake]
  exact hb

/-- The scan has no reading of the front of a text. -/
def Fails (p : Scan α) (s : List Char) : Prop :=
  ∀ ⦃β : Type⦄ (next : α → List Char → Option β), p.run s next = none

/-- The scan has only one reading of the front of a text, with the given result and rest. -/
def Forced (p : Scan α) (s : List Char) (a : α) (t : List Char) : Prop :=
  ∀ ⦃β : Type⦄ (next : α → List Char → Option β), p.run s next = next a t

lemma Forced.takes (h : p.Forced s a t) : p.Takes s a t :=
  fun _ next _ hb => (h next).trans hb

/-- What follows the only reading has none. -/
lemma Forced.fails_bind {f : α → Scan γ} (h : p.Forced s a t) (hf : (f a).Fails t) :
    (p >>= f).Fails s :=
  fun _ next => (h _).trans (hf next)

lemma fails_satisfy {k : Char → Bool} (h : ∀ d ∈ s.head?, k d = false) : (satisfy k).Fails s := by
  intro β next
  cases s with
  | nil => rfl
  | cons d s => exact if_neg (by rw [h d rfl]; exact Bool.false_ne_true)

lemma fails_char (h : ∀ d ∈ s.head?, d ≠ c) : (char c).Fails s :=
  fails_satisfy fun d hd => beq_eq_false_iff_ne.2 (h d hd)

lemma fails_text {w : String} (h : Chars.after? w.toList s = none) : (text w).Fails s := by
  intro β next
  rw [run_text, h, Option.bind_none]

lemma Fails.bind (h : p.Fails s) (f : α → Scan γ) : (p >>= f).Fails s :=
  fun _ _ => h _

lemma Fails.assoc {δ : Type} {f : α → Scan γ} {g : γ → Scan δ}
    (h : (p >>= fun a => f a >>= g).Fails s) : ((p >>= f) >>= g).Fails s :=
  h

lemma Fails.either (hp : p.Fails s) (hq : q.Fails s) : (Scan.either p q).Fails s := by
  intro β next
  rw [run_either, hp, Option.none_or, hq]

lemma Fails.captured (h : p.Fails s) : (Scan.captured p).Fails s :=
  fun _ _ => h _

lemma fails_many1 {k : Char → Bool} (h : ∀ d ∈ s.head?, k d = false) : (many1 k).Fails s := by
  intro β next
  cases s with
  | nil => rfl
  | cons d s => exact if_neg (by rw [h d rfl]; exact Bool.false_ne_true)

/-- What follows a run of a class has no reading, neither behind the run nor within it. -/
lemma fails_skip_bind {k : Char → Bool} {f : Unit → Scan γ} (hx : ∀ d ∈ x, k d = true)
    (hs : ∀ d ∈ s.head?, k d = false) (hbehind : (f ()).Fails s)
    (hwithin : ∀ d u, k d = true → (f ()).Fails (d :: u)) : (skip k >>= f).Fails (x ++ s) := by
  intro β next
  have hlongest (seen : List Char) :
      longest k (fun _ u => (f ()).run u next) seen (x ++ s) = none := by
    induction x generalizing seen with
    | nil =>
      rw [List.nil_append, longest_of_head hs]
      exact hbehind next
    | cons d x ih =>
      obtain ⟨hd, hx⟩ := List.forall_mem_cons.1 hx
      rw [List.cons_append, longest, if_pos hd, ih hx]
      exact hwithin d (x ++ s) hd next
  exact hlongest []

/-- The same for a run that is not empty. -/
lemma fails_skip1_bind {k : Char → Bool} {f : Unit → Scan γ} (hx : ∀ d ∈ x, k d = true)
    (hs : ∀ d ∈ s.head?, k d = false) (hbehind : (f ()).Fails s)
    (hwithin : ∀ d u, k d = true → (f ()).Fails (d :: u)) : (skip1 k >>= f).Fails (x ++ s) := by
  cases x with
  | nil => exact ((fails_satisfy hs).bind _).bind _
  | cons d x =>
    obtain ⟨hd, hx⟩ := List.forall_mem_cons.1 hx
    intro β next
    exact (if_pos hd).trans (fails_skip_bind hx hs hbehind hwithin next)

/-- A run leaves its last character to what follows, if that has no reading behind the run. -/
lemma takes_skip_last {k : Char → Bool} {f : Unit → Scan γ} {g : γ} {d : Char}
    (hx : ∀ e ∈ x, k e = true) (hd : k d = true) (hs : ∀ e ∈ s.head?, k e = false)
    (hfails : (f ()).Fails s) (h : (f ()).Takes (d :: s) g t) :
    (skip k >>= f).Takes (x ++ d :: s) g t := by
  intro β next b hb
  refine longest_append hx [] ?_
  rw [longest, if_pos hd, longest_of_head hs]
  dsimp only
  rw [hfails]
  exact h next b hb

lemma fails_anyOf {ps : List (Scan α)} (h : ∀ p ∈ ps, p.Fails s) : (anyOf ps).Fails s := by
  intro β next
  induction ps with
  | nil => rfl
  | cons p ps ih =>
    obtain ⟨hp, hps⟩ := List.forall_mem_cons.1 h
    rw [anyOf, run_either, hp, Option.none_or, ih hps]

lemma Takes.either_of_fails (h : q.Takes s a t) (hp : p.Fails s) : (either p q).Takes s a t :=
  h.either_right fun _ next => hp next

/-- An optional part that is not there. -/
lemma Fails.optional (h : p.Fails s) : (Scan.optional p).Takes s none s :=
  (takes_pure none s).either_of_fails (h.bind _)

lemma Fails.optional_bind {f : Option α → Scan γ} (hsome : (p >>= fun a => f (some a)).Fails s)
    (hnone : (f none).Fails s) : (Scan.optional p >>= f).Fails s := by
  intro β next
  refine (run_either ..).trans (Option.or_eq_none_iff.2 ⟨?_, hnone next⟩)
  exact hsome next

/-- An optional part with which what follows has no reading is passed over. -/
lemma Takes.optional_bind_none {f : Option α → Scan γ} {g : γ}
    (hsome : (p >>= fun a => f (some a)).Fails s) (hnone : (f none).Takes s g t) :
    (Scan.optional p >>= f).Takes s g t := by
  intro β next b hb
  refine (run_either ..).trans ?_
  rw [show ((some <$> p : Scan (Option α)).run s fun r u => (f r).run u next) = none from
    hsome next, Option.none_or]
  exact hnone next b hb

/-- The first scan of a list that has a reading. -/
lemma takes_anyOf_map {ι : Type} {f : ι → Scan α} {xs : List ι} {i : ι} (n : Nat)
    (hn : xs[n]? = some i) (hbefore : ∀ j ∈ xs.take n, (f j).Fails s) (h : (f i).Takes s a t) :
    (anyOf (xs.map f)).Takes s a t := by
  induction xs generalizing n with
  | nil => cases hn
  | cons j xs ih =>
    cases n with
    | zero =>
      obtain rfl : j = i := Option.some.inj hn
      exact h.either_left _
    | succ n =>
      obtain ⟨hj, hxs⟩ := List.forall_mem_cons.1 hbefore
      exact (ih n hn hxs).either_of_fails hj

/-- Readings one after the other, until the scan has none. -/
inductive TakesAll (p : Scan α) : List Char → List α → List Char → Prop
  | nil {s : List Char} (h : p.Fails s) : TakesAll p s [] s
  | cons {s t u : List Char} {a : α} {as : List α} (h : p.Takes s a t) (hshort : t.length < s.length)
      (hall : TakesAll p t as u) : TakesAll p s (a :: as) u

lemma TakesAll.length_le {as : List α} {u : List Char} (h : p.TakesAll s as u) :
    as.length ≤ s.length := by
  induction h with
  | nil => exact Nat.zero_le _
  | cons _ hshort _ ih => exact Nat.succ_le_of_lt (Nat.lt_of_le_of_lt ih hshort)

lemma TakesAll.upTo {as : List α} {u : List Char} (h : p.TakesAll s as u) {n : Nat}
    (hn : as.length ≤ n) : (Scan.upTo p n).Takes s as u := by
  induction h generalizing n with
  | nil hfails =>
    cases n with
    | zero => exact takes_pure _ _
    | succ n => exact (takes_pure [] _).either_of_fails (hfails.bind _)
  | cons htakes _ _ ih =>
    cases n with
    | zero => exact absurd hn (Nat.not_succ_le_zero _)
    | succ n =>
      exact (htakes.bind ((ih (Nat.le_of_succ_le_succ hn)).bind
        (f := fun as => pure (_ :: as)) (takes_pure _ _))).either_left _

lemma TakesAll.repeated {as : List α} {u : List Char} (h : p.TakesAll s as u) :
    (Scan.repeated p).Takes s as u :=
  h.upTo h.length_le

end Takes

section Offers

/-! ### Scans that succeed

A scan tries its readings in order until what follows succeeds.  Whether it succeeds does not depend
on the order: one reading is enough. -/

/-- If what follows succeeds on a result and a rest, so does the scan, be it on another reading. -/
def Offers (p : Scan α) (s : List Char) (a : α) (t : List Char) : Prop :=
  ∀ ⦃γ : Type⦄ (next : α → List Char → Option γ),
    (next a t).isSome = true → (p.run s next).isSome = true

variable {p q : Scan α} {s t u x : List Char} {a : α} {k : Char → Bool}

lemma Takes.offers (h : p.Takes s a t) : p.Offers s a t := by
  intro γ next hnext
  obtain ⟨b, hb⟩ := Option.isSome_iff_exists.1 hnext
  rw [h next b hb, Option.isSome_some]

namespace Offers

lemma bind {f : α → Scan β} {b : β} (h : p.Offers s a t) (hf : (f a).Offers t b u) :
    (p >>= f).Offers s b u :=
  fun _ _ hnext => h _ (hf _ hnext)

lemma either_left (h : p.Offers s a t) (q : Scan α) : (either p q).Offers s a t := by
  intro γ next hnext
  rw [run_either, Option.isSome_or, h next hnext, Bool.true_or]

lemma either_right (h : q.Offers s a t) (p : Scan α) : (either p q).Offers s a t := by
  intro γ next hnext
  rw [run_either, Option.isSome_or, h next hnext, Bool.or_true]

lemma optional_some (h : p.Offers s a t) : (optional p).Offers s (some a) t :=
  either_left (fun _ next hnext => h (next ∘ some) hnext) _

lemma optional_none (p : Scan α) (s : List Char) : (optional p).Offers s none s :=
  either_right (takes_pure none s).offers _

lemma whole (h : p.Offers s a []) : (p.whole s).isSome = true :=
  h _ rfl

end Offers

lemma isSome_longest {next : List Char → List Char → Option β} {seen : List Char}
    (hx : ∀ c ∈ x, k c = true) (h : (next (x.reverse ++ seen) t).isSome = true) :
    (longest k next seen (x ++ t)).isSome = true := by
  induction x generalizing seen with
  | nil =>
    cases t with
    | nil => exact h
    | cons c t =>
      rw [List.nil_append, longest]
      split
      · split
        · rfl
        · exact h
      · exact h
  | cons c x ih =>
    obtain ⟨hc, hx⟩ := List.forall_mem_cons.1 hx
    have hrest : (longest k next (c :: seen) (x ++ t)).isSome = true := ih hx (by simpa using h)
    rw [List.cons_append, longest, if_pos hc]
    split
    · rfl
    · next hnone => simp [hnone] at hrest

lemma isSome_shortest {next : List Char → List Char → Option β} {seen : List Char}
    (hx : ∀ c ∈ x, k c = true) (h : (next (x.reverse ++ seen) t).isSome = true) :
    (shortest k next seen (x ++ t)).isSome = true := by
  induction x generalizing seen with
  | nil =>
    cases t with
    | nil => exact h
    | cons c t =>
      obtain ⟨b, hb⟩ := Option.isSome_iff_exists.1 h
      rw [List.reverse_nil, List.nil_append] at hb
      rw [List.nil_append, shortest, hb]
      rfl
  | cons c x ih =>
    obtain ⟨hc, hx⟩ := List.forall_mem_cons.1 hx
    rw [List.cons_append, shortest]
    split
    · rfl
    · rw [if_pos hc]
      exact ih hx (by simpa using h)

lemma offers_many (hx : ∀ c ∈ x, k c = true) (t : List Char) :
    (many k).Offers (x ++ t) (String.ofList x) t :=
  fun _ _ hnext => isSome_longest hx (by simpa using hnext)

lemma offers_skip (hx : ∀ c ∈ x, k c = true) (t : List Char) : (skip k).Offers (x ++ t) () t :=
  fun _ _ hnext => isSome_longest hx hnext

lemma offers_many1 (hne : x ≠ []) (hx : ∀ c ∈ x, k c = true) (t : List Char) :
    (many1 k).Offers (x ++ t) (String.ofList x) t := by
  obtain ⟨c, x, rfl⟩ := List.exists_cons_of_ne_nil hne
  obtain ⟨hc, hx⟩ := List.forall_mem_cons.1 hx
  intro γ next hnext
  show (if k c then _ else none : Option γ).isSome = true
  rw [if_pos hc]
  exact isSome_longest hx (by simpa using hnext)

lemma offers_few1 (hne : x ≠ []) (hx : ∀ c ∈ x, k c = true) (t : List Char) :
    (few1 k).Offers (x ++ t) (String.ofList x) t := by
  obtain ⟨c, x, rfl⟩ := List.exists_cons_of_ne_nil hne
  obtain ⟨hc, hx⟩ := List.forall_mem_cons.1 hx
  intro γ next hnext
  show (if k c then _ else none : Option γ).isSome = true
  rw [if_pos hc]
  exact isSome_shortest hx (by simpa using hnext)

end Offers

end Scan
end UmlDraw
