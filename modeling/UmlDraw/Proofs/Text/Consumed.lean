/-
# What a scan reads

A scan reads a beginning of a text and hands the rest to what follows.  So a scan that is made of
parts which read certain characters only reads those only, and so does the text that it captures.

A text is cut by its quotation marks into parts that stand inside and outside of them.  A text that
closes each quotation mark that it opens can be left out of account: what follows it is cut as if it
stood alone.

The main statements are

* `Scan.Within.bind` and the lemmas beside it: which characters a scan reads;
* `Scan.Within.captured`: the text that a scan captures;
* `Scan.Cuts.of_whole` and the lemmas before it: which texts a scan reads, and as what;
* `Chars.Closed.append`, `Chars.closed_of_not_mem` and `Chars.closed_quoted`: texts that close their
  quotation marks.
-/
import UmlDraw.Proofs.Text.Result

namespace UmlDraw
namespace Scan

variable {α β : Type}

/-- Whenever the scan has a reading with which what follows succeeds, it reads characters of the
given kind, and what follows gets the rest of the text. -/
def Within (p : Scan α) (C : Char → Prop) : Prop :=
  ∀ ⦃β : Type⦄ (s : List Char) (next : α → List Char → Option β) (b : β),
    p.run s next = some b → ∃ a u t, s = u ++ t ∧ (∀ c ∈ u, C c) ∧ next a t = some b

namespace Within

variable {p q : Scan α} {f : α → Scan β} {C : Char → Prop} {k : Char → Bool}

lemma pure (a : α) : (Pure.pure a : Scan α).Within C :=
  fun _ s _ _ hb => ⟨a, [], s, rfl, List.forall_mem_nil _, hb⟩

lemma bind (hp : p.Within C) (hf : ∀ a, (f a).Within C) : (p >>= f).Within C := by
  intro _ s next b hb
  obtain ⟨a, u, t, rfl, hu, hnext⟩ := hp s _ b hb
  obtain ⟨a', u', t', rfl, hu', hnext'⟩ := hf a t next b hnext
  exact ⟨a', u ++ u', t', (List.append_assoc u u' t').symm, List.forall_mem_append.2 ⟨hu, hu'⟩,
    hnext'⟩

lemma either (hp : p.Within C) (hq : q.Within C) : (Scan.either p q).Within C := by
  intro _ s next b hb
  unfold Scan.either at hb
  dsimp only at hb
  split at hb
  · next b' hb' => exact hp s next b (hb'.trans hb)
  · exact hq s next b hb

lemma anyOf {ps : List (Scan α)} (h : ∀ p ∈ ps, p.Within C) : (Scan.anyOf ps).Within C := by
  induction ps with
  | nil => exact fun _ _ _ _ hb => nomatch hb
  | cons p ps ih =>
    obtain ⟨hp, hps⟩ := List.forall_mem_cons.1 h
    exact hp.either (ih hps)

lemma optional (hp : p.Within C) : (Scan.optional p).Within C :=
  (hp.bind fun _ => Within.pure _).either (Within.pure _)

lemma satisfy (hk : ∀ c, k c = true → C c) : (Scan.satisfy k).Within C := by
  intro _ s next b hb
  cases s with
  | nil => cases hb
  | cons d s =>
    unfold Scan.satisfy at hb
    dsimp only at hb
    split at hb
    · next hd => exact ⟨d, [d], s, rfl, List.forall_mem_singleton.2 (hk d hd), hb⟩
    · cases hb

lemma char {c : Char} (hc : C c) : (Scan.char c).Within C :=
  satisfy fun _ hd => (eq_of_beq hd) ▸ hc

lemma chars {cs : List Char} (h : ∀ c ∈ cs, C c) : (Scan.chars cs).Within C := by
  induction cs with
  | nil => exact Within.pure ()
  | cons c cs ih =>
    obtain ⟨hc, hcs⟩ := List.forall_mem_cons.1 h
    exact (char hc).bind fun _ => ih hcs

lemma text {s : String} (hs : ∀ c ∈ s.toList, C c) : (Scan.text s).Within C :=
  chars hs

/-- A keyword reads the spellings of its characters. -/
lemma spelled {cs : List Char} (h : ∀ k ∈ cs, ∀ c, Letter.sameLetter k c = true → C c) :
    (Scan.spelled cs).Within C := by
  induction cs with
  | nil => exact Within.pure []
  | cons k ks ih =>
    obtain ⟨hk, hks⟩ := List.forall_mem_cons.1 h
    exact (satisfy hk).bind fun _ => (ih hks).bind fun _ => Within.pure _

lemma oneOf {words : List String}
    (h : ∀ w ∈ words, ∀ k ∈ w.toList, ∀ c, Letter.sameLetter k c = true → C c) :
    (Scan.oneOf words).Within C := by
  refine bind (anyOf fun p hp => ?_) fun _ => Within.pure _
  obtain ⟨w, hw, rfl⟩ := List.mem_map.1 hp
  exact spelled (h w hw)

lemma keyword {w : String} (h : ∀ k ∈ w.toList, ∀ c, Letter.sameLetter k c = true → C c) :
    (Scan.keyword w).Within C :=
  (spelled h).bind fun _ => Within.pure _

/-- Keywords do not hold a character that no letter of them is spelled with. -/
lemma oneOf_ne {words : List String} {d : Char}
    (h : ∀ w ∈ words, ∀ k ∈ w.toList, Letter.sameLetter k d = false) :
    (Scan.oneOf words).Within (· ≠ d) := by
  refine oneOf fun w hw k hk c hc => ?_
  rintro rfl
  rw [h w hw k hk] at hc
  cases hc

lemma keyword_ne {w : String} {d : Char} (h : ∀ k ∈ w.toList, Letter.sameLetter k d = false) :
    (Scan.keyword w).Within (· ≠ d) := by
  refine keyword fun k hk c hc => ?_
  rintro rfl
  rw [h k hk] at hc
  cases hc

/-- A success of a greedy run is one of what follows it, behind characters of the class. -/
lemma exists_of_longest (hk : ∀ c, k c = true → C c) {next : List Char → List Char → Option β}
    {seen s : List Char} {b : β} (h : longest k next seen s = some b) :
    ∃ u t, s = u ++ t ∧ (∀ c ∈ u, C c) ∧ next (u.reverse ++ seen) t = some b := by
  induction s generalizing seen with
  | nil => exact ⟨[], [], rfl, List.forall_mem_nil _, h⟩
  | cons d s ih =>
    rw [longest] at h
    split at h
    · next hd =>
      split at h
      · next b' hb' =>
        obtain ⟨u, t, rfl, hu, hnext⟩ := ih (hb'.trans h)
        exact ⟨d :: u, t, rfl, List.forall_mem_cons.2 ⟨hk d hd, hu⟩, by simpa using hnext⟩
      · exact ⟨[], d :: s, rfl, List.forall_mem_nil _, h⟩
    · exact ⟨[], d :: s, rfl, List.forall_mem_nil _, h⟩

lemma many (hk : ∀ c, k c = true → C c) : (Scan.many k).Within C := by
  intro _ s next b hb
  obtain ⟨u, t, hs, hu, hnext⟩ := exists_of_longest hk hb
  exact ⟨_, u, t, hs, hu, hnext⟩

lemma skip (hk : ∀ c, k c = true → C c) : (Scan.skip k).Within C := by
  intro _ s next b hb
  obtain ⟨u, t, hs, hu, hnext⟩ := exists_of_longest hk hb
  exact ⟨(), u, t, hs, hu, hnext⟩

lemma skip1 (hk : ∀ c, k c = true → C c) : (Scan.skip1 k).Within C :=
  (satisfy hk).bind fun _ => skip hk

/-- A nonempty run of a class reads characters of the class, and they are its result. -/
lemma run_many1 (hk : ∀ c, k c = true → C c) {s : List Char}
    {next : String → List Char → Option β} {b : β} (h : (Scan.many1 k).run s next = some b) :
    ∃ u t, s = u ++ t ∧ (∀ c ∈ u, C c) ∧ next (String.ofList u) t = some b := by
  unfold Scan.many1 at h
  dsimp only at h
  split at h
  · cases h
  · next d s =>
    split at h
    · next hd =>
      obtain ⟨u, t, rfl, hu, hnext⟩ := exists_of_longest hk h
      exact ⟨d :: u, t, rfl, List.forall_mem_cons.2 ⟨hk d hd, hu⟩, by simpa using hnext⟩
    · cases h

lemma many1 (hk : ∀ c, k c = true → C c) : (Scan.many1 k).Within C := by
  intro _ s next b hb
  obtain ⟨u, t, hs, hu, hnext⟩ := run_many1 hk hb
  exact ⟨_, u, t, hs, hu, hnext⟩

lemma upTo (hp : p.Within C) (n : Nat) : (Scan.upTo p n).Within C := by
  induction n with
  | zero => exact Within.pure []
  | succ n ih => exact (hp.bind fun _ => ih.bind fun _ => Within.pure _).either (Within.pure _)

lemma repeated (hp : p.Within C) : (Scan.repeated p).Within C :=
  fun _ s next b hb => hp.upTo s.length s next b hb

/-- The text that a scan captures is what it reads. -/
lemma captured (hp : p.Within C) : (Scan.captured p).Yields fun s => ∀ c ∈ s.toList, C c := by
  intro _ s next b hb
  obtain ⟨a, u, t, rfl, hu, hnext⟩ := hp s _ b hb
  have htake : (u ++ t).take ((u ++ t).length - t.length) = u := by simp
  refine ⟨_, t, ?_, hnext⟩
  dsimp only
  rw [htake, String.toList_ofList]
  exact hu

lemma withinCaptured (hp : p.Within C) : (Scan.captured p).Within C := by
  intro _ s next b hb
  obtain ⟨a, u, t, hs, hu, hnext⟩ := hp s _ b hb
  exact ⟨_, u, t, hs, hu, hnext⟩

/-- The beginning that a scan reads, and the rest. -/
lemma of_start (hp : p.Within C) {s t : List Char} {a : α} (h : p.start s = some (a, t)) :
    ∃ u, s = u ++ t ∧ ∀ c ∈ u, C c := by
  obtain ⟨a', u, t', hs, hu, hnext⟩ := hp s _ _ h
  have hsame : t' = t := congrArg Prod.snd (Option.some.inj hnext)
  exact ⟨u, hsame ▸ hs, hu⟩

end Within

namespace Yields

variable {p : Scan α} {Q : α → Prop}

/-- The result of a nonempty run of a class. -/
lemma many1 (k : Char → Bool) : (Scan.many1 k).Yields fun s => ∀ c ∈ s.toList, k c = true := by
  intro _ s next b hb
  obtain ⟨u, t, -, hu, hnext⟩ := Within.run_many1 (fun _ h => h) hb
  refine ⟨_, t, ?_, hnext⟩
  dsimp only
  rwa [String.toList_ofList]

/-- What the beginning of a text is read as. -/
lemma of_start (h : p.Yields Q) {s t : List Char} {a : α} (ha : p.start s = some (a, t)) : Q a := by
  obtain ⟨a', t', ha', hnext⟩ := h s _ _ ha
  have hsame : a' = a := congrArg Prod.fst (Option.some.inj hnext)
  exact hsame ▸ ha'

/-- What the first place that can be read is read as. -/
lemma of_search (h : p.Yields Q) {s before t : List Char} {a : α}
    (ha : p.search s = some (before, a, t)) : Q a := by
  induction s generalizing before with
  | nil =>
    obtain ⟨⟨a', t'⟩, hstart, heq⟩ := Option.map_eq_some_iff.1 ha
    have hsame : a' = a := congrArg (fun r => r.2.1) heq
    exact hsame ▸ h.of_start hstart
  | cons c s ih =>
    unfold Scan.search at ha
    split at ha
    · next a' t' hstart =>
      have hsame : a' = a := congrArg (fun r => r.2.1) (Option.some.inj ha)
      exact hsame ▸ h.of_start hstart
    · obtain ⟨⟨before', a', t'⟩, hfound, heq⟩ := Option.map_eq_some_iff.1 ha
      have hsame : (a', t') = (a, t) := congrArg Prod.snd heq
      exact ih (hfound.trans (congrArg (fun r => some (before', r)) hsame))

end Yields
/-! ### What is read, and what is made of it -/

/-- Whenever the scan has a reading with which what follows succeeds, the text that it reads, its
result and the rest of the text are related as described. -/
def Cuts (p : Scan α) (R : List Char → α → List Char → Prop) : Prop :=
  ∀ ⦃β : Type⦄ (s : List Char) (next : α → List Char → Option β) (b : β),
    p.run s next = some b → ∃ x a t, s = x ++ t ∧ R x a t ∧ next a t = some b

namespace Cuts

variable {p q : Scan α} {R R' : List Char → α → List Char → Prop}

lemma imp (h : p.Cuts R) (hR : ∀ x a t, R x a t → R' x a t) : p.Cuts R' := by
  intro _ s next b hb
  obtain ⟨x, a, t, hs, hx, hnext⟩ := h s next b hb
  exact ⟨x, a, t, hs, hR x a t hx, hnext⟩

/-- The first part of a text that is read in two steps. -/
lemma of_bind (h : p.Cuts R) {γ : Type} {f : α → Scan γ} {s : List Char}
    {next : γ → List Char → Option β} {b : β} (hb : (p >>= f).run s next = some b) :
    ∃ x a t, s = x ++ t ∧ R x a t ∧ (f a).run t next = some b :=
  h s _ b hb

lemma either (hp : p.Cuts R) (hq : q.Cuts R) : (Scan.either p q).Cuts R := by
  intro _ s next b hb
  unfold Scan.either at hb
  dsimp only at hb
  split at hb
  · next b' hb' => exact hp s next b (hb'.trans hb)
  · exact hq s next b hb

lemma anyOf {ps : List (Scan α)} (h : ∀ p ∈ ps, p.Cuts R) : (Scan.anyOf ps).Cuts R := by
  induction ps with
  | nil => exact fun _ _ _ _ hb => nomatch hb
  | cons p ps ih =>
    obtain ⟨hp, hps⟩ := List.forall_mem_cons.1 h
    exact hp.either (ih hps)

lemma optional (h : p.Cuts R) :
    (Scan.optional p).Cuts fun x r t => r = none ∧ x = [] ∨ ∃ a, r = some a ∧ R x a t := by
  refine either ?_ fun _ s next b hb => ⟨[], none, s, rfl, .inl ⟨rfl, rfl⟩, hb⟩
  intro _ s next b hb
  obtain ⟨x, a, t, hs, hx, hnext⟩ := h s _ b hb
  exact ⟨x, some a, t, hs, .inr ⟨a, rfl, hx⟩, hnext⟩

lemma satisfy (k : Char → Bool) : (Scan.satisfy k).Cuts fun x c _ => x = [c] ∧ k c = true := by
  intro _ s next b hb
  cases s with
  | nil => cases hb
  | cons d s =>
    unfold Scan.satisfy at hb
    dsimp only at hb
    split at hb
    · next hd => exact ⟨[d], d, s, rfl, ⟨rfl, hd⟩, hb⟩
    · cases hb

lemma char (c : Char) : (Scan.char c).Cuts fun x _ _ => x = [c] :=
  (satisfy _).imp fun _ _ _ ⟨hx, hc⟩ => hx.trans (by rw [beq_iff_eq.1 hc])

lemma ahead (k : List Char → Bool) : (Scan.ahead k).Cuts fun x _ t => x = [] ∧ k t = true := by
  intro _ s next b hb
  unfold Scan.ahead at hb
  dsimp only at hb
  split at hb
  · next hk => exact ⟨[], (), s, rfl, ⟨rfl, hk⟩, hb⟩
  · cases hb

lemma chars (cs : List Char) : (Scan.chars cs).Cuts fun x _ _ => x = cs := by
  induction cs with
  | nil => exact fun _ s _ b hb => ⟨[], (), s, rfl, rfl, hb⟩
  | cons c cs ih =>
    intro _ s next b hb
    obtain ⟨_, _, t, rfl, rfl, hrest⟩ := (char c).of_bind hb
    obtain ⟨_, _, u, rfl, rfl, hnext⟩ := ih t _ b hrest
    exact ⟨_, (), u, rfl, rfl, hnext⟩

lemma text (w : String) : (Scan.text w).Cuts fun x _ _ => x = w.toList :=
  chars w.toList

lemma literal (w : String) : (Scan.literal w).Cuts fun x v _ => v = w ∧ x = w.toList := by
  intro _ s next b hb
  obtain ⟨x, _, t, hs, hx, hnext⟩ := text w s _ b hb
  exact ⟨x, w, t, hs, ⟨rfl, hx⟩, hnext⟩

lemma many (k : Char → Bool) :
    (Scan.many k).Cuts fun x w _ => w = String.ofList x ∧ ∀ c ∈ x, k c = true := by
  intro _ s next b hb
  obtain ⟨u, t, hs, hu, hnext⟩ := Within.exists_of_longest (fun _ h => h) hb
  rw [List.append_nil, List.reverse_reverse] at hnext
  exact ⟨u, _, t, hs, ⟨rfl, hu⟩, hnext⟩

lemma many1 (k : Char → Bool) : (Scan.many1 k).Cuts fun x w _ =>
    w = String.ofList x ∧ x ≠ [] ∧ ∀ c ∈ x, k c = true := by
  intro _ s next b hb
  cases s with
  | nil => cases hb
  | cons d s =>
    unfold Scan.many1 at hb
    dsimp only at hb
    split at hb
    · next hd =>
      obtain ⟨u, t, rfl, hu, hnext⟩ := Within.exists_of_longest (fun _ h => h) hb
      rw [List.reverse_append, List.reverse_reverse] at hnext
      exact ⟨d :: u, _, t, rfl, ⟨rfl, List.cons_ne_nil _ _, List.forall_mem_cons.2 ⟨hd, hu⟩⟩, hnext⟩
    · cases hb

/-- A success of a lazy run is one of what follows it, behind characters of the class. -/
lemma exists_of_shortest {next : List Char → List Char → Option β} {seen : List Char} {b : β}
    (h : shortest k next seen s = some b) :
    ∃ u t, s = u ++ t ∧ (∀ c ∈ u, k c = true) ∧ next (u.reverse ++ seen) t = some b := by
  induction s generalizing seen with
  | nil => exact ⟨[], [], rfl, List.forall_mem_nil _, h⟩
  | cons d s ih =>
    rw [shortest] at h
    split at h
    · next b' hb' => exact ⟨[], d :: s, rfl, List.forall_mem_nil _, hb'.trans h⟩
    · split at h
      · next hd =>
        obtain ⟨u, t, rfl, hu, hnext⟩ := ih h
        exact ⟨d :: u, t, rfl, List.forall_mem_cons.2 ⟨hd, hu⟩, by simpa using hnext⟩
      · cases h

lemma few1 (k : Char → Bool) : (Scan.few1 k).Cuts fun x w _ =>
    w = String.ofList x ∧ x ≠ [] ∧ ∀ c ∈ x, k c = true := by
  intro _ s next b hb
  cases s with
  | nil => cases hb
  | cons d s =>
    unfold Scan.few1 at hb
    dsimp only at hb
    split at hb
    · next hd =>
      obtain ⟨u, t, rfl, hu, hnext⟩ := exists_of_shortest hb
      rw [List.reverse_append, List.reverse_reverse] at hnext
      exact ⟨d :: u, _, t, rfl, ⟨rfl, List.cons_ne_nil _ _, List.forall_mem_cons.2 ⟨hd, hu⟩⟩, hnext⟩
    · cases hb

lemma skip (k : Char → Bool) : (Scan.skip k).Cuts fun x _ _ => ∀ c ∈ x, k c = true := by
  intro _ s next b hb
  obtain ⟨u, t, hs, hu, hnext⟩ := Within.exists_of_longest (fun _ h => h) hb
  exact ⟨u, (), t, hs, hu, hnext⟩

lemma skip1 (k : Char → Bool) :
    (Scan.skip1 k).Cuts fun x _ _ => x ≠ [] ∧ ∀ c ∈ x, k c = true := by
  intro _ s next b hb
  obtain ⟨_, c, t, rfl, ⟨rfl, hc⟩, hrest⟩ := (satisfy k).of_bind hb
  obtain ⟨u, _, t, rfl, hu, hnext⟩ := skip k t _ b hrest
  exact ⟨c :: u, (), t, rfl, ⟨List.cons_ne_nil _ _, List.forall_mem_cons.2 ⟨hc, hu⟩⟩, hnext⟩

/-- The text that a scan captures is what it reads. -/
lemma captured (h : p.Cuts R) :
    (Scan.captured p).Cuts fun x w t => w = String.ofList x ∧ ∃ a, R x a t := by
  intro _ s next b hb
  obtain ⟨x, a, t, rfl, hx, hnext⟩ := h s _ b hb
  have htake : (x ++ t).take ((x ++ t).length - t.length) = x := by simp
  dsimp only at hnext
  rw [htake] at hnext
  exact ⟨x, _, t, rfl, ⟨rfl, a, hx⟩, hnext⟩

/-- A repetition reads one text for each result. -/
lemma repeated {Q : List Char → α → Prop} (h : p.Cuts fun x a _ => Q x a) :
    (Scan.repeated p).Cuts fun x as _ => ∃ xs : List (List Char × α),
      x = (xs.map Prod.fst).flatten ∧ as = xs.map Prod.snd ∧ ∀ y ∈ xs, Q y.1 y.2 := by
  have hupTo (n : Nat) : (Scan.upTo p n).Cuts fun x as _ => ∃ xs : List (List Char × α),
      x = (xs.map Prod.fst).flatten ∧ as = xs.map Prod.snd ∧ ∀ y ∈ xs, Q y.1 y.2 := by
    have hnil : (Pure.pure [] : Scan (List α)).Cuts fun x as _ => ∃ xs : List (List Char × α),
        x = (xs.map Prod.fst).flatten ∧ as = xs.map Prod.snd ∧ ∀ y ∈ xs, Q y.1 y.2 :=
      fun _ s _ b hb => ⟨[], [], s, rfl, ⟨[], rfl, rfl, List.forall_mem_nil _⟩, hb⟩
    induction n with
    | zero => exact hnil
    | succ n ih =>
      refine either ?_ hnil
      intro _ s next b hb
      obtain ⟨x, a, t, rfl, hx, hrest⟩ := h s _ b hb
      obtain ⟨_, _, t, rfl, ⟨xs, rfl, rfl, hxs⟩, hnext⟩ := ih t _ b hrest
      exact ⟨_, _, t, (List.append_assoc _ _ _).symm,
        ⟨(x, a) :: xs, rfl, rfl, List.forall_mem_cons.2 ⟨hx, hxs⟩⟩, hnext⟩
  exact fun _ s next b hb => hupTo s.length s next b hb

/-- A text that is read as a whole. -/
lemma of_whole (h : p.Cuts R) {s : List Char} {a : α} (ha : p.whole s = some a) : R s a [] := by
  obtain ⟨x, a', t, rfl, hx, hnext⟩ := h s _ a ha
  cases t with
  | nil =>
    obtain rfl : a' = a := Option.some.inj hnext
    rwa [List.append_nil]
  | cons c t => cases hnext

end Cuts

end Scan

/-! ### Quotation marks -/

namespace Chars

/-- The characters of a text that stand outside of quotation marks; the text begins inside of them
or not. -/
def outside : Bool → List Char → List Char
  | _, [] => []
  | inside, c :: s =>
    if c = '"' then outside (!inside) s
    else if inside then outside inside s
    else c :: outside inside s

/-- Quotation marks that are opened in the text are closed in it. -/
def Closed (x : List Char) : Prop :=
  ∀ s, outside false (x ++ s) = outside false x ++ outside false s

variable {x y s : List Char}

lemma closed_nil : Closed [] :=
  fun _ => rfl

lemma Closed.append (hx : Closed x) (hy : Closed y) : Closed (x ++ y) := by
  intro s
  rw [List.append_assoc, hx, hy, hx, List.append_assoc]

lemma outside_append_of_not_mem (h : '"' ∉ x) (s : List Char) :
    outside false (x ++ s) = x ++ outside false s := by
  induction x with
  | nil => rfl
  | cons c x ih =>
    rw [List.mem_cons, not_or] at h
    rw [List.cons_append, outside, if_neg (Ne.symm h.1), if_neg Bool.false_ne_true, ih h.2]
    rfl

lemma outside_of_not_mem (h : '"' ∉ x) : outside false x = x := by
  have happend := outside_append_of_not_mem h []
  rwa [List.append_nil, outside, List.append_nil] at happend

lemma closed_of_not_mem (h : '"' ∉ x) : Closed x := by
  intro s
  rw [outside_append_of_not_mem h, outside_of_not_mem h]

lemma outside_inside (h : '"' ∉ x) (s : List Char) :
    outside true (x ++ '"' :: s) = outside false s := by
  induction x with
  | nil => rfl
  | cons c x ih =>
    rw [List.mem_cons, not_or] at h
    rw [List.cons_append, outside, if_neg (Ne.symm h.1), if_pos rfl, ih h.2]

lemma outside_quoted (h : '"' ∉ x) (s : List Char) :
    outside false ('"' :: (x ++ ['"']) ++ s) = outside false s := by
  rw [List.cons_append, List.append_assoc, outside, if_pos rfl]
  exact outside_inside h s

lemma closed_quoted (h : '"' ∉ x) : Closed ('"' :: (x ++ ['"'])) := by
  intro s
  have hx := outside_quoted h []
  rw [List.append_nil] at hx
  rw [outside_quoted h, hx]
  rfl

/-- Quotation marks that are opened in the text are closed in it, and they enclose each occurrence
of the character. -/
structure Encloses (d : Char) (x : List Char) : Prop where
  closed : Closed x
  not_mem : d ∉ outside false x

namespace Encloses

variable {d : Char}

lemma append (hx : Encloses d x) (hy : Encloses d y) : Encloses d (x ++ y) where
  closed := hx.closed.append hy.closed
  not_mem := by
    rw [hx.closed, List.mem_append, not_or]
    exact ⟨hx.not_mem, hy.not_mem⟩

lemma of_forall (h : ∀ c ∈ x, c ≠ '"' ∧ c ≠ d) : Encloses d x := by
  have hquote : '"' ∉ x := fun hmem => (h _ hmem).1 rfl
  refine ⟨closed_of_not_mem hquote, ?_⟩
  rw [outside_of_not_mem hquote]
  exact fun hmem => (h _ hmem).2 rfl

lemma nil : Encloses d [] :=
  of_forall (List.forall_mem_nil _)

lemma quoted (h : '"' ∉ x) : Encloses d ('"' :: (x ++ ['"'])) := by
  refine ⟨closed_quoted h, ?_⟩
  have hx := outside_quoted h []
  rw [List.append_nil] at hx
  rw [hx]
  exact List.not_mem_nil

/-- The character does not stand behind a text that closes its quotation marks. -/
lemma ne_append (h : Encloses d x) (hy : Closed y) (hd : d ≠ '"') (s : List Char) :
    x ≠ y ++ d :: s := by
  rintro rfl
  refine h.not_mem ?_
  rw [hy, outside, if_neg hd, if_neg Bool.false_ne_true]
  exact List.mem_append_right _ (List.mem_cons_self ..)

end Encloses

end Chars

namespace Scan

variable {α β : Type} {p : Scan α}

/-- The scan closes the quotation marks that it opens. -/
def Closes (p : Scan α) : Prop :=
  p.Cuts fun x _ _ => Chars.Closed x

namespace Closes

lemma bind (hp : p.Closes) {f : α → Scan β} (hf : ∀ a, (f a).Closes) : (p >>= f).Closes := by
  intro _ s next b hb
  obtain ⟨x, a, t, rfl, hx, hrest⟩ := hp s _ b hb
  obtain ⟨y, c, u, rfl, hy, hnext⟩ := hf a t next b hrest
  exact ⟨x ++ y, c, u, (List.append_assoc x y u).symm, hx.append hy, hnext⟩

lemma pure (a : α) : (Pure.pure a : Scan α).Closes :=
  fun _ s _ _ hb => ⟨[], a, s, rfl, Chars.closed_nil, hb⟩

lemma of_within (h : p.Within (· ≠ '"')) : p.Closes := by
  intro _ s next b hb
  obtain ⟨a, x, t, hs, hx, hnext⟩ := h s next b hb
  exact ⟨x, a, t, hs, Chars.closed_of_not_mem fun hmem => hx _ hmem rfl, hnext⟩

lemma optional (h : p.Closes) : (Scan.optional p).Closes :=
  Cuts.either (h.bind fun _ => pure _) (pure none)

lemma captured (h : p.Closes) : (Scan.captured p).Closes :=
  (Cuts.captured h).imp fun _ _ _ hx => hx.2.elim fun _ h => h

lemma repeated (h : p.Closes) : (Scan.repeated p).Closes := by
  refine (Cuts.repeated h).imp ?_
  rintro _ _ _ ⟨xs, rfl, -, hxs⟩
  induction xs with
  | nil => exact Chars.closed_nil
  | cons y xs ih =>
    obtain ⟨hy, hxs⟩ := List.forall_mem_cons.1 hxs
    exact hy.append (ih hxs)

end Closes

end Scan
end UmlDraw
