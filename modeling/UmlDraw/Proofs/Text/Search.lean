/-
# The first reading of a scan

A scan hands what it has read to the rest of its form and goes back when the rest fails.  The
lemmas of this file say what comes out where going back never helps: fixed texts, greedy and lazy
runs, the search for the first place of a text where a scan succeeds, and the search for all of
them.

The main statements are

* `Scan.longest_eq`: a greedy run is the maximal one, if nothing that follows can start with a
  character of its class;
* `Scan.shortest_append`: a lazy run passes over a part in which nothing that follows succeeds;
* `Scan.search_append`: a search passes over a part on which the scan fails;
* `Scan.erase_around` and `Scan.occurrences_around`: a text with one occurrence of a scan;
* `Scan.occurrencesWithin_step`: the next occurrence in a text with several.
-/
import Mathlib.Tactic.Lemma
import UmlDraw.Text.Scan

namespace UmlDraw

namespace Chars

@[simp] lemma after?_nil (s : List Char) : after? [] s = some s := by
  cases s <;> rfl

@[simp] lemma after?_append (a s : List Char) : after? a (a ++ s) = some s := by
  induction a with
  | nil => simp
  | cons c a ih => simp [after?, ih]

/-- A pattern is not found in a text without its first character. -/
lemma cut?_of_not_mem {q : Char} {x : List Char} (hx : q ∉ x) (a : List Char) :
    cut? (q :: a) x = none := by
  induction x with
  | nil => rfl
  | cons c x ih =>
    rw [List.mem_cons, not_or] at hx
    rw [cut?, after?, if_neg hx.1, ih hx.2]
    rfl

lemma split_append {q : Char} {x : List Char} (hx : q ∉ x) (s : List Char) :
    split q (x ++ q :: s) = x :: split q s := by
  unfold split
  induction x with
  | nil => simp [splitWhen]
  | cons c x ih =>
    rw [List.mem_cons, not_or] at hx
    have hc : (c == q) = false := beq_eq_false_iff_ne.2 (Ne.symm hx.1)
    rw [List.cons_append, splitWhen, hc, if_neg Bool.false_ne_true, ih hx.2]

lemma split_of_not_mem {q : Char} {x : List Char} (hx : q ∉ x) : split q x = [x] := by
  unfold split
  induction x with
  | nil => rfl
  | cons c x ih =>
    rw [List.mem_cons, not_or] at hx
    have hc : (c == q) = false := beq_eq_false_iff_ne.2 (Ne.symm hx.1)
    rw [splitWhen, hc, if_neg Bool.false_ne_true, ih hx.2]

/-- A pattern that ends with a character which stands nowhere else in it is found at the front of a
text only if it reaches up to the first such character of the text. -/
lemma after?_stop {q : Char} {a x s : List Char} (ha : q ∉ a) (hx : q ∉ x) :
    after? (a ++ [q]) (x ++ q :: s) = if x = a then some s else none := by
  induction a generalizing x with
  | nil =>
    cases x with
    | nil => simp [after?]
    | cons c x =>
      have hc : q ≠ c := fun e => hx (by simp [e])
      simp [after?, hc]
  | cons b a ih =>
    have hb : b ≠ q := fun e => ha (by simp [e])
    cases x with
    | nil => simp [after?, hb]
    | cons c x =>
      have := ih (x := x) (fun h => ha (by simp [h])) (fun h => hx (by simp [h]))
      by_cases e : b = c
      · subst e
        simp [after?, this]
      · have e' : ¬c = b := fun h => e h.symm
        simp [after?, e, e']

lemma all_ne_of_not_mem {q : Char} {x : List Char} (hx : q ∉ x) : ∀ c ∈ x, (c != q) = true := by
  intro c hc
  simpa using fun e : c = q => hx (e ▸ hc)

lemma takeWhile_stop {q : Char} {x : List Char} (hx : q ∉ x) (s : List Char) :
    (x ++ q :: s).takeWhile (· != q) = x := by
  rw [List.takeWhile_append_of_pos (all_ne_of_not_mem hx)]
  simp

lemma dropWhile_stop {q : Char} {x : List Char} (hx : q ∉ x) (s : List Char) :
    (x ++ q :: s).dropWhile (· != q) = q :: s := by
  rw [List.dropWhile_append_of_pos (all_ne_of_not_mem hx)]
  simp

/-- A text is known from what stands up to the first occurrence of a character behind it. -/
lemma eq_of_append_stop {q : Char} {x y s t : List Char} (hx : q ∉ x) (hy : q ∉ y)
    (h : x ++ q :: s = y ++ q :: t) : x = y := by
  have htake := congrArg (List.takeWhile (· != q)) h
  rwa [takeWhile_stop hx, takeWhile_stop hy] at htake

lemma dropWhile_of_head {p : Char → Bool} {s : List Char} (hs : ∀ c ∈ s.head?, p c = false) :
    s.dropWhile p = s := by
  cases s with
  | nil => rfl
  | cons c s => exact List.dropWhile_cons_of_neg (by simp [hs c rfl])

/-- What follows a run of a class is known from the text, if the class does not go on there. -/
lemma eq_of_append_run {p : Char → Bool} {x y s t : List Char} (hx : ∀ c ∈ x, p c = true)
    (hy : ∀ c ∈ y, p c = true) (hs : ∀ c ∈ s.head?, p c = false) (ht : ∀ c ∈ t.head?, p c = false)
    (h : x ++ s = y ++ t) : s = t := by
  have hdrop := congrArg (List.dropWhile p) h
  rwa [List.dropWhile_append_of_pos hx, List.dropWhile_append_of_pos hy, dropWhile_of_head hs,
    dropWhile_of_head ht] at hdrop

/-- A pattern and a text differ before either of them ends. -/
def clashes : List Char → List Char → Bool
  | a :: pattern, c :: s => a != c || clashes pattern s
  | _, _ => false

lemma after?_of_clashes {a x : List Char} (h : clashes a x = true) (s : List Char) :
    after? a (x ++ s) = none := by
  induction a generalizing x with
  | nil => simp [clashes] at h
  | cons b a ih =>
    cases x with
    | nil => simp [clashes] at h
    | cons c x =>
      rw [clashes, Bool.or_eq_true] at h
      by_cases e : b = c
      · subst e
        have : clashes a x = true := by simpa using h
        simp [after?, ih this]
      · simp [after?, e]

/-- A pattern clashes with a text at each of its places. -/
def avoids (pattern : List Char) : List Char → Bool
  | [] => true
  | c :: s => clashes pattern (c :: s) && avoids pattern s

lemma avoids_of_append {a x y : List Char} (h : avoids a (x ++ y) = true) : avoids a y = true := by
  induction x with
  | nil => exact h
  | cons c x ih =>
    rw [List.cons_append, avoids, Bool.and_eq_true] at h
    exact ih h.2

lemma avoids_of_not_mem {c : Char} {a x : List Char} (h : c ∉ x) : avoids (c :: a) x = true := by
  induction x with
  | nil => rfl
  | cons d x ih =>
    have hd : (c != d) = true := by simpa using fun e : c = d => h (by simp [e])
    rw [avoids, ih fun hx => h (by simp [hx]), clashes, hd]
    rfl

end Chars

namespace Scan

variable {α β γ : Type}

/-! ### Readings of the primitive scans -/

@[simp] lemma run_pure (a : α) (s : List Char) (next : α → List Char → Option β) :
    (pure a : Scan α).run s next = next a s := rfl

@[simp] lemma run_bind (p : Scan α) (f : α → Scan γ) (s : List Char)
    (next : γ → List Char → Option β) :
    (p >>= f).run s next = p.run s fun a rest => (f a).run rest next := rfl

lemma run_chars (cs s : List Char) (next : Unit → List Char → Option β) :
    (chars cs).run s next = (Chars.after? cs s).bind (next ()) := by
  induction cs generalizing s with
  | nil => simp [chars]
  | cons c cs ih =>
    cases s with
    | nil => rfl
    | cons d s =>
      rw [chars, run_bind, char, satisfy, Chars.after?]
      by_cases h : c = d
      · simp [h, ih]
      · have h' : (d == c) = false := by simpa using fun e => h e.symm
        simp [h, h']

lemma run_text (t : String) (s : List Char) (next : Unit → List Char → Option β) :
    (text t).run s next = (Chars.after? t.toList s).bind (next ()) :=
  run_chars t.toList s next

lemma run_char_cons (c : Char) (s : List Char) (next : Char → List Char → Option β) :
    (char c).run (c :: s) next = next c s := by
  simp [char, satisfy]

lemma run_char_of_ne {c d : Char} (h : d ≠ c) (s : List Char)
    (next : Char → List Char → Option β) : (char c).run (d :: s) next = none := by
  simp [char, satisfy, h]

lemma run_require (b : Bool) (s : List Char) (next : Unit → List Char → Option β) :
    (require b).run s next = if b then next () s else none := by
  cases b <;> rfl

/-- The end of a word is where no letter of a word goes on. -/
lemma run_wordEnd (s : List Char) (next : Unit → List Char → Option β) :
    wordEnd.run s next = if s.head?.any Letter.isWord then none else next () s := by
  cases s with
  | nil => rfl
  | cons c s => cases h : Letter.isWord c <;> simp [wordEnd, ahead, h]

/-! ### Runs -/

lemma longest_eq {p : Char → Bool} {next : List Char → List Char → Option β}
    (hnext : ∀ seen c s, p c = true → next seen (c :: s) = none) (seen s : List Char) :
    longest p next seen s = next ((s.takeWhile p).reverse ++ seen) (s.dropWhile p) := by
  induction s generalizing seen with
  | nil => rfl
  | cons c s ih =>
    rw [longest]
    by_cases hc : p c = true
    · rw [if_pos hc, ih, hnext seen c s hc]
      simp only [List.takeWhile_cons, List.dropWhile_cons, if_pos hc, List.reverse_cons,
        List.append_assoc, List.singleton_append]
      cases next ((s.takeWhile p).reverse ++ c :: seen) (s.dropWhile p) <;> rfl
    · simp [hc]

lemma shortest_of_some {p : Char → Bool} {next : List Char → List Char → Option β}
    {seen s : List Char} {b : β} (h : next seen s = some b) : shortest p next seen s = some b := by
  cases s with
  | nil => exact h
  | cons c s => rw [shortest, h]

lemma shortest_append {p : Char → Bool} {next : List Char → List Char → Option β}
    {x s : List Char} (hx : ∀ c ∈ x, p c = true) (seen : List Char)
    (hnext : ∀ a b, x = a ++ b → b ≠ [] → next (a.reverse ++ seen) (b ++ s) = none) :
    shortest p next seen (x ++ s) = shortest p next (x.reverse ++ seen) s := by
  induction x generalizing seen with
  | nil => rfl
  | cons c x ih =>
    have hfirst : next seen (c :: (x ++ s)) = none := hnext [] (c :: x) rfl (by simp)
    rw [List.cons_append, shortest, hfirst, if_pos (hx c (by simp)),
      ih (fun d hd => hx d (by simp [hd]))]
    · simp
    · intro a b hab hb
      have := hnext (c :: a) b (by simp [hab]) hb
      simpa using this

lemma run_many {p : Char → Bool} {next : String → List Char → Option β}
    (hnext : ∀ a c s, p c = true → next a (c :: s) = none) (s : List Char) :
    (many p).run s next = next (String.ofList (s.takeWhile p)) (s.dropWhile p) := by
  change longest p (fun seen => next (String.ofList seen.reverse)) [] s = _
  rw [longest_eq fun seen c t hc => hnext _ c t hc]
  simp

lemma run_many1 {p : Char → Bool} {next : String → List Char → Option β}
    (hnext : ∀ a c s, p c = true → next a (c :: s) = none) {s : List Char}
    (hs : s.takeWhile p ≠ []) :
    (many1 p).run s next = next (String.ofList (s.takeWhile p)) (s.dropWhile p) := by
  cases s with
  | nil => exact absurd rfl hs
  | cons c s =>
    by_cases hc : p c = true
    · simp only [many1, if_pos hc]
      rw [longest_eq fun seen d t hd => hnext _ d t hd]
      simp [hc]
    · simp [hc] at hs

lemma run_few (p : Char → Bool) (s : List Char) (next : String → List Char → Option β) :
    (few p).run s next = shortest p (fun seen => next (String.ofList seen.reverse)) [] s := rfl

/-! ### Searching -/

/-- A scan fails at every place of a text in front of another one. -/
def FailsOn (p : Scan α) (x s : List Char) : Prop :=
  ∀ a b, x = a ++ b → b ≠ [] → p.start (b ++ s) = none

lemma FailsOn.nil (p : Scan α) (s : List Char) : p.FailsOn [] s := by
  intro a b hab hb
  exact absurd (List.append_eq_nil_iff.1 hab.symm).2 hb

lemma FailsOn.append {p : Scan α} {x y s : List Char} (hx : p.FailsOn x (y ++ s))
    (hy : p.FailsOn y s) : p.FailsOn (x ++ y) s := by
  intro a b hab hb
  rcases List.append_eq_append_iff.1 hab with ⟨c, rfl, hy'⟩ | ⟨c, rfl, rfl⟩
  · exact hy c b hy' hb
  · by_cases hc : c = []
    · subst hc
      exact hy [] y rfl (by simpa using hb)
    · rw [List.append_assoc]
      exact hx a c rfl hc

/-- A scan that starts with a fixed text fails where that text clashes. -/
lemma failsOn_of_avoids {p : Scan α} {a x : List Char}
    (hp : ∀ t, Chars.after? a t = none → p.start t = none) (hx : Chars.avoids a x = true)
    (s : List Char) : p.FailsOn x s := by
  induction x with
  | nil => exact FailsOn.nil p s
  | cons c x ih =>
    rw [Chars.avoids, Bool.and_eq_true] at hx
    intro b t hbt ht
    cases b with
    | nil =>
      obtain rfl : c :: x = t := by simpa using hbt
      exact hp _ (Chars.after?_of_clashes hx.1 s)
    | cons d b =>
      obtain ⟨-, rfl⟩ := List.cons.inj hbt
      exact ih hx.2 b t rfl ht

lemma search_append {p : Scan α} {x s : List Char} (h : p.FailsOn x s) :
    p.search (x ++ s) = (p.search s).map fun (before, found) => (x ++ before, found) := by
  induction x with
  | nil => simp
  | cons c x ih =>
    have hstart : p.start (c :: (x ++ s)) = none := h [] (c :: x) rfl (by simp)
    have hx : p.FailsOn x s := fun a b hab hb => h (c :: a) b (by simp [hab]) hb
    rw [List.cons_append, search, hstart, ih hx]
    simp [Option.map_map, Function.comp_def]

lemma search_of_start {p : Scan α} {s rest : List Char} {a : α}
    (h : p.start s = some (a, rest)) : p.search s = some ([], a, rest) := by
  cases s with
  | nil => rw [search, h]; rfl
  | cons c s => rw [search, h]

/-! ### Occurrences -/

section Occurrences

variable {p : Scan α} {a : α} {x y z : List Char}

lemma eraseWithin_append (h : p.FailsOn x y) (n : Nat) :
    p.eraseWithin (n + x.length) (x ++ y) = x ++ p.eraseWithin n y := by
  induction x with
  | nil => rfl
  | cons c x ih =>
    have hstart : p.start (c :: (x ++ y)) = none := h [] (c :: x) rfl (by simp)
    have hx : p.FailsOn x y := fun a b hab hb => h (c :: a) b (by simp [hab]) hb
    have hlength : n + (c :: x).length = n + x.length + 1 := rfl
    rw [hlength, List.cons_append, eraseWithin, hstart, ih hx]
    rfl

lemma occurrencesWithin_append (h : p.FailsOn x y) (n : Nat) :
    p.occurrencesWithin (n + x.length) (x ++ y) = p.occurrencesWithin n y := by
  induction x with
  | nil => rfl
  | cons c x ih =>
    have hstart : p.start (c :: (x ++ y)) = none := h [] (c :: x) rfl (by simp)
    have hx : p.FailsOn x y := fun a b hab hb => h (c :: a) b (by simp [hab]) hb
    have hlength : n + (c :: x).length = n + x.length + 1 := rfl
    rw [hlength, List.cons_append, occurrencesWithin, hstart, ih hx]

/-- Nothing is removed from a text on which the scan fails. -/
lemma eraseWithin_of_failsOn (h : p.FailsOn x []) {n : Nat} (hn : x.length ≤ n) :
    p.eraseWithin n x = x := by
  obtain ⟨k, rfl⟩ := Nat.exists_eq_add_of_le' hn
  have hx := eraseWithin_append h k
  have hnil : p.eraseWithin k [] = [] := by
    cases k <;> rfl
  rwa [List.append_nil, hnil, List.append_nil] at hx

lemma occurrencesWithin_of_failsOn (h : p.FailsOn x []) {n : Nat} (hn : x.length ≤ n) :
    p.occurrencesWithin n x = [] := by
  obtain ⟨k, rfl⟩ := Nat.exists_eq_add_of_le' hn
  have hx := occurrencesWithin_append h k
  have hnil : p.occurrencesWithin k [] = [] := by
    cases k <;> rfl
  rwa [List.append_nil, hnil] at hx

/-- A text with one occurrence of the scan, without it. -/
lemma erase_around (hx : p.FailsOn x (y ++ z)) (hy : y ≠ [])
    (hstart : p.start (y ++ z) = some (a, z)) (hz : p.FailsOn z []) :
    p.erase (x ++ (y ++ z)) = x ++ z := by
  obtain ⟨c, y, rfl⟩ := List.exists_cons_of_ne_nil hy
  have hlength : (x ++ (c :: y ++ z)).length + 1 = (y ++ z).length + 2 + x.length := by
    simp only [List.length_append, List.length_cons]
    omega
  rw [erase, hlength, eraseWithin_append hx, List.cons_append, eraseWithin]
  rw [List.cons_append] at hstart
  rw [hstart]
  exact congrArg (x ++ ·) (eraseWithin_of_failsOn hz (by simp; omega))

/-- The next occurrence, behind a part on which the scan fails. -/
lemma occurrencesWithin_step (hx : p.FailsOn x (y ++ z)) (hy : y ≠ [])
    (hstart : p.start (y ++ z) = some (a, z)) (n : Nat) :
    p.occurrencesWithin (n + 1 + x.length) (x ++ (y ++ z)) = a :: p.occurrencesWithin n z := by
  obtain ⟨c, y, rfl⟩ := List.exists_cons_of_ne_nil hy
  rw [List.cons_append] at hstart
  rw [occurrencesWithin_append hx, List.cons_append, occurrencesWithin, hstart]

/-- The result of the only occurrence of the scan in a text. -/
lemma occurrences_around (hx : p.FailsOn x (y ++ z)) (hy : y ≠ [])
    (hstart : p.start (y ++ z) = some (a, z)) (hz : p.FailsOn z []) :
    p.occurrences (x ++ (y ++ z)) = [a] := by
  have hlength : (x ++ (y ++ z)).length + 1 = (y ++ z).length + 1 + x.length := by
    simp only [List.length_append]
    omega
  rw [occurrences, hlength, occurrencesWithin_step hx hy hstart,
    occurrencesWithin_of_failsOn hz (by simp)]

end Occurrences

end Scan
end UmlDraw
