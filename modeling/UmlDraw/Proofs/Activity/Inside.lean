/-
# Outlines inside outlines

The cells of an instruction stand one after the other in the outline of each list around it, and the
connectors that start there are its own, except those that start where the flow goes out of it.  So
what is known of the outline of an instruction by itself is known of its place in a whole drawing.

The main statements are

* `Instruction.fits_outline` and the three lemmas beside it: where ends and connectors of an outline
  start;
* `Outline.Inside.trans`: an outline inside another one that is inside a third one;
* `Instruction.settled_outlineAll`: each place is that of the outline of its instruction.
-/
import UmlDraw.Proofs.Activity.Outline

namespace UmlDraw
namespace Activity

open Outline

/-! ### Connectors of an outline -/

namespace Outline

variable {o : Outline} {source target : Nat} {a b : Nat}

lemma mem_flow {s t : Option Nat} : Piece.link a b ∈ flow s t ↔ s = some a ∧ t = some b := by
  cases s with
  | none => simp [flow]
  | some s =>
    cases t with
    | none => simp [flow]
    | some t => simp [flow, eq_comm]

lemma mem_strand : Piece.link a b ∈ o.strand source target ↔
    .link a b ∈ o.pieces ∨ (source = a ∧ o.entry = some b) ∨ o.exit = some a ∧ target = b := by
  simp [strand, mem_flow]

lemma mem_branch : Piece.link a b ∈ o.branch source target ↔
    .link a b ∈ o.pieces ∨ (source = a ∧ o.entry.or target = some b) ∨
      o.exit = some a ∧ target = b := by
  simp [branch, mem_flow]

lemma mem_again {n : Nat} {start : Option Nat} {condition : String} :
    Piece.link a b ∈ o.again n start condition ↔
      .link a b ∈ o.pieces ∨ (start = some a ∧ o.entry = some b) ∨
        (o.exit = some a ∧ o.test n start = b) ∨ o.test n start = a ∧ o.top n start = b := by
  simp [again, mem_flow, eq_comm]

lemma entry_eq_some {n : Nat} : o.entry = some n ↔ ∃ e, o.ends = some e ∧ e.1 = n :=
  Option.map_eq_some_iff

lemma exit_eq_some {n : Nat} : o.exit = some n ↔ ∃ e, o.ends = some e ∧ e.2 = n :=
  Option.map_eq_some_iff

/-- The connectors among cells behind a number of cells start at these cells or at certain cells
before. -/
def Starts (n : Nat) (ps : List Piece) (outer : Nat → Prop) : Prop :=
  ∀ a b, .link a b ∈ ps → (n < a ∧ a ≤ n + ps.length) ∨ outer a

section Starts

variable {n : Nat} {ps qs : List Piece} {p : Piece} {A B : Nat → Prop}

lemma Starts.imp (h : Starts n ps A) (hAB : ∀ a, A a → (n < a ∧ a ≤ n + ps.length) ∨ B a) :
    Starts n ps B :=
  fun a b hab => (h a b hab).elim .inl (hAB a)

lemma starts_nil : Starts n [] A :=
  fun _ _ h => nomatch h

lemma Starts.append (hps : Starts n ps A) (hqs : Starts (n + ps.length) qs A) :
    Starts n (ps ++ qs) A := by
  intro a b hab
  rw [List.length_append]
  rcases List.mem_append.1 hab with hab | hab
  · exact (hps a b hab).imp_left fun h => ⟨h.1, by omega⟩
  · exact (hqs a b hab).imp_left fun h => ⟨by omega, by omega⟩

lemma Starts.cons_shape (h : Starts (n + 1) ps A) (value : String) :
    Starts n (.shape value :: ps) A := by
  intro a b hab
  rw [List.length_cons]
  exact (h a b ((List.mem_cons.1 hab).resolve_left nofun)).imp_left fun h =>
    ⟨by omega, by omega⟩

lemma Starts.cons_link {source : Nat} (h : Starts (n + 1) ps A) (hsource : A source)
    (target : Nat) :
    Starts n (.link source target :: ps) A := by
  intro a b hab
  rw [List.length_cons]
  rcases List.mem_cons.1 hab with hab | hab
  · injection hab with ha
    exact .inr (ha ▸ hsource)
  · exact (h a b hab).imp_left fun h => ⟨by omega, by omega⟩

end Starts

/-- The outline has its cells behind the given number of cells: there its ends lie, and there its
connectors start, apart from those that start at certain cells before. -/
structure Fits (o : Outline) (n : Nat) (outer : Nat → Prop) : Prop where
  ends : ∀ e, o.ends = some e →
    (n < e.1 ∧ e.1 ≤ n + o.pieces.length) ∧ n < e.2 ∧ e.2 ≤ n + o.pieces.length
  starts : Starts n o.pieces outer

/-- A list without a cell before it starts no connector outside. -/
lemma Fits.closed {n : Nat} (h : o.Fits n (none = some ·)) : o.Fits n fun _ => False :=
  ⟨h.ends, h.starts.imp nofun⟩

lemma Fits.exit {n : Nat} {outer : Nat → Prop} (h : o.Fits n outer) (hx : o.exit = some a) :
    n < a ∧ a ≤ n + o.pieces.length := by
  obtain ⟨e, he, rfl⟩ := exit_eq_some.1 hx
  exact (h.ends e he).2

/-- Flows in and out add connectors that start at the cell before and at the way out. -/
lemma Fits.starts_append_flow {n : Nat} {A B : Nat → Prop} (h : o.Fits n A) (hAB : ∀ a, A a → B a)
    {s t u : Option Nat} (hs : ∀ a, s = some a → B a) :
    Starts n (o.pieces ++ (flow s t ++ flow o.exit u)) B := by
  intro a b hab
  rw [List.length_append]
  rw [List.mem_append, List.mem_append, mem_flow, mem_flow] at hab
  rcases hab with hab | ⟨ha, -⟩ | ⟨ha, -⟩
  · exact (h.starts a b hab).imp (fun h => ⟨h.1, by omega⟩) (hAB a)
  · exact .inr (hs a ha)
  · exact .inl ⟨(h.exit ha).1, by have := (h.exit ha).2; omega⟩

lemma length_again (n : Nat) (start : Option Nat) (condition : String) :
    o.test n start < n + (o.again n start condition).length := by
  simp only [test, again, List.length_append, List.length_cons]
  omega

/-- A list that is done again starts its connectors among its cells and at the shape before it. -/
lemma Fits.starts_again {n : Nat} (h : o.Fits n fun _ => False) (start : Option Nat)
    (condition : String) : Starts n (o.again n start condition) (start = some ·) := by
  intro a b hab
  have hlength : o.pieces.length ≤ (o.again n start condition).length := by
    simp [again]
  have htest := length_again (o := o) n start condition
  rcases mem_again.1 hab with hab | ⟨ha, -⟩ | ⟨ha, -⟩ | ⟨rfl, -⟩
  · exact .inl ((h.starts a b hab).elim (fun h => ⟨h.1, by omega⟩) False.elim)
  · exact .inr ha
  · exact .inl ⟨(h.exit ha).1, by have := (h.exit ha).2; omega⟩
  · exact .inl ⟨by unfold test; omega, by omega⟩

/-- The flow goes back to the shape before the list, or to a cell of it. -/
lemma Fits.top {n : Nat} (h : o.Fits n fun _ => False) (start : Option Nat) (condition : String) :
    start = some (o.top n start) ∨
      n < o.top n start ∧ o.top n start ≤ n + (o.again n start condition).length := by
  have htest := length_again (o := o) n start condition
  have hlength : o.pieces.length ≤ (o.again n start condition).length := by
    simp [again]
  unfold Outline.top
  cases start with
  | some s => exact .inl rfl
  | none =>
    right
    cases hentry : o.entry with
    | none => exact ⟨by simp [test]; omega, by simp; omega⟩
    | some a =>
      obtain ⟨e, he, rfl⟩ := entry_eq_some.1 hentry
      have := (h.ends e he).1
      simp only [Option.none_or, Option.getD_some]
      omega

end Outline

namespace Instruction

/-- A list has a flow if one of its instructions does not stand beside it. -/
def hasFlow (is : List Instruction) : Bool :=
  is.any fun i => !i.isAside

lemma isSome_ends_outline (n : Nat) (i : Instruction) :
    (outline n i).ends.isSome = !i.isAside := by
  unfold outline
  cases i with
  | step nd s => cases s <;> rfl
  | choice nd c first others last =>
    dsimp only
    split <;> rfl
  | loop nd l body =>
    dsimp only
    split <;> rfl
  | _ => rfl

lemma isSome_ends_outlineAll (n : Nat) (before : Option Nat) (is : List Instruction) :
    (outlineAll n before is).ends.isSome = hasFlow is := by
  induction is generalizing n before with
  | nil => rfl
  | cons i rest ih =>
    have hspan : ∀ e e', (span e e').isSome = (e.isSome || e'.isSome) := by
      intro e e'
      cases e <;> cases e' <;> rfl
    rw [outlineAll, hspan, isSome_ends_outline, ih, hasFlow, hasFlow, List.any_cons]

mutual

lemma fits_outline (n : Nat) : (i : Instruction) → (outline n i).Fits n fun _ => False
  | step nd s => by
    unfold outline
    cases s <;> exact ⟨by simp [isAside, Step.pieces], by simp [isAside, Step.pieces, Starts]⟩
  | choice nd c first others last => by
    unfold outline
    split
    · exact ⟨by simp, by simp [Starts]⟩
    · have h1 := fits_outlineAll (n + 2) none first
      dsimp only
      generalize outlineAll (n + 2) none first = one at *
      generalize hm : n + 2 + (one.branch (n + 1) (n + 2)).length = m at *
      obtain ⟨h2, hlast⟩ := fits_outlineOthers m (n + 2) (n + 1) others
      generalize outlineOthers m (n + 2) (n + 1) others = more at *
      have h3 := fits_outlineAll (m + more.1.pieces.length) none last
      generalize outlineAll (m + more.1.pieces.length) none last = other at *
      refine ⟨by simp, ?_⟩
      have hstarts : Starts (n + 2)
          (one.branch (n + 1) (n + 2) ++ (more.1.pieces ++ other.branch more.2 (n + 2)))
          fun a => a = n + 1 ∨ a = more.2 := by
        refine (h1.starts_append_flow (by simp) (by simp)).append (Starts.append ?_ ?_)
        · change Starts (n + 2 + (one.branch (n + 1) (n + 2)).length) _ _
          rw [hm]
          exact h2.starts.imp fun a ha => .inr (.inl ha)
        · change Starts (n + 2 + (one.branch (n + 1) (n + 2)).length + _) _ _
          rw [hm]
          exact h3.starts_append_flow (by simp) (by simp)
      refine ((hstarts.cons_shape _).cons_shape _).imp ?_
      simp only [List.length_cons, List.length_append]
      rintro a (rfl | rfl)
      · omega
      · rcases hlast with hlast | hlast
        · omega
        · have := h2.exit hlast
          omega
  | loop nd l body => by
    unfold outline
    cases l.test with
    | before =>
      have h := fits_outlineAll (n + 1) none body
      generalize outlineAll (n + 1) none body = inner at *
      refine ⟨by simp, ?_⟩
      have hstarts := (h.starts_append_flow (B := (· = n + 1)) (s := some (n + 1))
        (t := inner.entry) (u := some (n + 1)) (by simp) (by simp)).cons_shape l.condition
      refine hstarts.imp ?_
      rintro a rfl
      exact .inl (by simp)
    | after startLabel =>
      dsimp only
      cases startLabel with
      | none =>
        have h := (fits_outlineAll n none body).closed
        simp only [Option.toList_none, List.map_nil, List.length_nil, Nat.add_zero, Option.map_none,
          List.nil_append]
        generalize outlineAll n none body = inner at *
        refine ⟨?_, (h.starts_again none l.condition).imp nofun⟩
        intro e he
        cases he
        have htop := (h.top none l.condition).resolve_left nofun
        have htest := length_again (o := inner) n none l.condition
        exact ⟨htop, by simp only [test]; omega, Nat.le_of_lt htest⟩
      | some label =>
        have h := (fits_outlineAll (n + 1) none body).closed
        simp only [Option.toList_some, List.map_cons, List.map_nil, List.length_singleton,
          Option.map_some, List.singleton_append]
        generalize outlineAll (n + 1) none body = inner at *
        refine ⟨?_, ((h.starts_again (some (n + 1)) l.condition).cons_shape label).imp ?_⟩
        · intro e he
          cases he
          have htest := length_again (o := inner) (n + 1) (some (n + 1)) l.condition
          rw [List.length_cons]
          refine ⟨?_, by simp only [test]; omega, by omega⟩
          simp [top]
        · intro a ha
          cases ha
          exact .inl (by simp)
  | switch nd condition color cases => by
    have h := fits_outlineBranches (n + 2) (n + 1) (n + 2) cases
    unfold outline
    refine ⟨by simp, ?_⟩
    refine ((h.starts.cons_shape _).cons_shape _).imp ?_
    rintro a ⟨rfl, -⟩
    simp
  | fork nd isSplit branches => by
    have h := fits_outlineBranches (n + 2) (n + 1) (n + 2) branches
    unfold outline
    refine ⟨by simp, ?_⟩
    refine ((h.starts.cons_shape _).cons_shape _).imp ?_
    rintro a ⟨rfl, -⟩
    simp
  | partition nd name color body => by
    have h := fits_outlineAll (n + 1) none body
    unfold outline
    dsimp only
    generalize outlineAll (n + 1) none body = inner at *
    refine ⟨?_, (h.starts.cons_shape _).imp (by simp)⟩
    intro e he
    rw [List.length_cons]
    cases hends : inner.ends with
    | none =>
      rw [hends] at he
      cases he
      simp
    | some e' =>
      rw [hends] at he
      cases he
      have := h.ends _ hends
      rw [Option.getD_some]
      omega

lemma fits_outlineAll (n : Nat) (before : Option Nat) :
    (is : List Instruction) → (outlineAll n before is).Fits n fun a => before = some a
  | [] => ⟨by simp [outlineAll], starts_nil⟩
  | i :: rest => by
    have h1 := fits_outline n i
    unfold outlineAll
    dsimp only
    generalize outline n i = one at *
    generalize hm : n + one.pieces.length + (flow before one.entry).length = m at *
    have h2 := fits_outlineAll m (one.exit.or before) rest
    generalize outlineAll m (one.exit.or before) rest = more at *
    refine ⟨?_, ?_⟩
    · intro e he
      simp only [List.length_append]
      cases hone : one.ends with
      | none =>
        rw [hone] at he
        have := h2.ends e he
        omega
      | some e1 =>
        have h1 := h1.ends e1 hone
        cases hmore : more.ends with
        | none =>
          rw [hone, hmore] at he
          cases he
          omega
        | some e2 =>
          rw [hone, hmore] at he
          cases he
          have h2 := h2.ends e2 hmore
          dsimp only
          omega
    · intro a b hab
      rw [List.mem_append, List.mem_append, mem_flow] at hab
      simp only [List.length_append]
      rcases hab with hab | ⟨ha, -⟩ | hab
      · have := (h1.starts a b hab).resolve_right id
        omega
      · exact .inr ha
      · rcases h2.starts a b hab with h | h
        · omega
        · -- the connector into the rest comes from the instruction or from before it
          cases hx : one.exit with
          | none => exact .inr (by rwa [hx, Option.none_or] at h)
          | some x =>
            rw [hx, Option.some_or] at h
            obtain rfl := Option.some.inj h
            have := h1.exit hx
            omega

lemma fits_outlineOthers (n merge before : Nat) :
    (others : List (Branch Instruction)) →
      let more := outlineOthers n merge before others
      more.1.Fits n (· = before) ∧ (more.2 = before ∨ more.1.exit = some more.2)
  | [] => ⟨⟨by simp [outlineOthers], starts_nil⟩, .inl rfl⟩
  | ⟨condition, label, body⟩ :: rest => by
    have h1 := fits_outlineAll (n + 2) none body
    unfold outlineOthers
    dsimp only
    generalize outlineAll (n + 2) none body = inner at *
    generalize hm : n + 2 + (inner.branch (n + 1) merge).length = m at *
    obtain ⟨h2, hlast⟩ := fits_outlineOthers m merge (n + 1) rest
    generalize outlineOthers m merge (n + 1) rest = more at *
    refine ⟨⟨?_, ?_⟩, .inr rfl⟩
    · rintro e ⟨⟩
      simp only [List.length_cons, List.length_append]
      rcases hlast with hlast | hlast
      · omega
      · have := h2.exit hlast
        omega
    · have hstarts : Starts (n + 2) (inner.branch (n + 1) merge ++ more.1.pieces) (· = n + 1) := by
        refine (h1.starts_append_flow (by simp) (by simp)).append ?_
        change Starts (n + 2 + (inner.branch (n + 1) merge).length) _ _
        rw [hm]
        exact h2.starts
      have hall := ((hstarts.imp (B := fun a => a = n + 1 ∨ a = before) (by simp)).cons_link
        (n := n + 1) (.inr rfl) (n + 1)).cons_shape condition
      refine hall.imp ?_
      simp

lemma fits_outlineBranches (n source target : Nat) :
    (branches : List (Branch Instruction)) →
      (outlineBranches n source target branches).Fits n fun a =>
        a = source ∧ (branches.any fun b => hasFlow b.body) = true
  | [] => ⟨by simp [outlineBranches], starts_nil⟩
  | ⟨condition, label, body⟩ :: rest => by
    have h1 := fits_outlineAll n none body
    have hends := isSome_ends_outlineAll n none body
    unfold outlineBranches
    dsimp only
    generalize outlineAll n none body = inner at *
    generalize hm : n + (inner.strand source target).length = m at *
    have h2 := fits_outlineBranches m source target rest
    generalize outlineBranches m source target rest = more at *
    refine ⟨by simp, Starts.append ?_ ?_⟩
    · intro a b hab
      rw [List.any_cons, ← hends]
      simp only [strand, List.length_append]
      rcases mem_strand.1 hab with hab | ⟨rfl, hentry⟩ | ⟨hx, -⟩
      · have := (h1.starts a b hab).resolve_right nofun
        omega
      · obtain ⟨e, he, -⟩ := entry_eq_some.1 hentry
        exact .inr ⟨rfl, by rw [he]; rfl⟩
      · have := h1.exit hx
        omega
    · rw [hm]
      refine h2.starts.imp fun a ha => .inr ⟨ha.1, ?_⟩
      rw [List.any_cons, ha.2, Bool.or_true]

end

end Instruction

/-! ### An outline inside another one -/

namespace Outline

/-- The cells of an outline stand one after the other among those of another one, and from them no
connector of the other one leads away, except from the way out. -/
structure Inside (m : Nat) (o : Outline) (n : Nat) (whole : Outline) : Prop where
  pieces : ∃ before behind, whole.pieces = before ++ (o.pieces ++ behind) ∧ n + before.length = m
  apart : ∀ a b, .link a b ∈ whole.pieces → m < a → a ≤ m + o.pieces.length →
    .link a b ∈ o.pieces ∨ o.exit = some a
  exit : ∀ a, whole.exit = some a → m < a → a ≤ m + o.pieces.length → o.exit = some a

lemma Inside.refl (n : Nat) (o : Outline) : Inside n o n o :=
  ⟨⟨[], [], by simp, rfl⟩, fun _ _ h _ _ => .inl h, fun _ h _ _ => h⟩

lemma Inside.subset {m n : Nat} {o whole : Outline} (h : Inside m o n whole) :
    o.pieces ⊆ whole.pieces := by
  obtain ⟨before, behind, hpieces, -⟩ := h.pieces
  rw [hpieces]
  exact fun p hp => List.mem_append_right _ (List.mem_append_left _ hp)

lemma Inside.bounds {m n : Nat} {o whole : Outline} (h : Inside m o n whole) :
    n ≤ m ∧ m + o.pieces.length ≤ n + whole.pieces.length := by
  obtain ⟨before, behind, hpieces, rfl⟩ := h.pieces
  simp only [hpieces, List.length_append]
  omega

lemma Inside.trans {l m n : Nat} {o o' o'' : Outline} (h : Inside l o m o')
    (h' : Inside m o' n o'') : Inside l o n o'' where
  pieces := by
    obtain ⟨before, behind, hpieces, rfl⟩ := h.pieces
    obtain ⟨before', behind', hpieces', rfl⟩ := h'.pieces
    refine ⟨before' ++ before, behind ++ behind', ?_, ?_⟩
    · simp [hpieces, hpieces']
    · rw [List.length_append, Nat.add_assoc]
  apart := by
    intro a b hab hlow hhigh
    have hbounds := h.bounds
    rcases h'.apart a b hab (by omega) (by omega) with hab | hexit
    · exact h.apart a b hab hlow hhigh
    · exact .inr (h.exit a hexit hlow hhigh)
  exit := by
    intro a ha hlow hhigh
    have hbounds := h.bounds
    exact h.exit a (h'.exit a ha (by omega) (by omega)) hlow hhigh

/-- An outline stands between other cells, whose connectors start elsewhere or at its way out. -/
lemma inside_of_append {m n : Nat} {o whole : Outline} (before behind : List Piece)
    (hpieces : whole.pieces = before ++ (o.pieces ++ behind)) (hm : n + before.length = m)
    (hbefore : ∀ a b, .link a b ∈ before → a ≤ m)
    (hbehind : ∀ a b, .link a b ∈ behind → a ≤ m ∨ m + o.pieces.length < a ∨ o.exit = some a)
    (hexit : ∀ a, whole.exit = some a → a ≤ m ∨ m + o.pieces.length < a ∨ o.exit = some a) :
    Inside m o n whole := by
  refine ⟨⟨before, behind, hpieces, hm⟩, ?_, ?_⟩
  · intro a b hab hlow hhigh
    rw [hpieces, List.mem_append, List.mem_append] at hab
    rcases hab with hab | hab | hab
    · have := hbefore a b hab
      omega
    · exact .inl hab
    · rcases hbehind a b hab with h | h | h
      · omega
      · omega
      · exact .inr h
  · intro a ha hlow hhigh
    rcases hexit a ha with h | h | h
    · omega
    · omega
    · exact h

/-- An outline stands behind some shapes. -/
lemma inside_of_shapes {n : Nat} {o whole : Outline} (values : List String)
    (hpieces : whole.pieces = values.map Piece.shape ++ o.pieces)
    (hexit : ∀ a, whole.exit = some a → a ≤ n + values.length ∨ o.exit = some a) :
    Inside (n + values.length) o n whole := by
  refine inside_of_append (values.map Piece.shape) [] ?_ ?_ ?_ nofun ?_
  · rw [hpieces, List.append_nil]
  · rw [List.length_map]
  · simp
  · exact fun a ha => (hexit a ha).imp_right .inr

/-- The parts of a decision stand inside it. -/
lemma inside_choice {n m : Nat} {one other : Outline} {more : Outline × Nat} {value : String}
    (whole : Outline) (h1 : one.Fits (n + 2) (none = some ·)) (h2 : more.1.Fits m (· = n + 1))
    (h3 : other.Fits (m + more.1.pieces.length) (none = some ·))
    (hm : n + 2 + (one.branch (n + 1) (n + 2)).length = m)
    (hlast : more.2 = n + 1 ∨ more.1.exit = some more.2)
    (hpieces : whole.pieces = .shape value :: .shape "" ::
      (one.branch (n + 1) (n + 2) ++ (more.1.pieces ++ other.branch more.2 (n + 2))))
    (hexit : whole.exit = some (n + 2)) :
    Inside (n + 2) one n whole ∧ Inside m more.1 n whole ∧
      Inside (m + more.1.pieces.length) other n whole := by
  have hle : n + 2 + one.pieces.length ≤ m := by
    rw [← hm, branch, List.length_append]
    omega
  have hout : ∀ a, whole.exit = some a → a ≤ n + 2 := by
    intro a ha
    rw [hexit] at ha
    exact Nat.le_of_eq (Option.some.inj ha).symm
  -- connectors start in the parts or at a decision before them
  have hone : ∀ a b, .link a b ∈ one.branch (n + 1) (n + 2) → a ≤ m := by
    intro a b hab
    rcases mem_branch.1 hab with hab | ⟨rfl, -⟩ | ⟨ha, -⟩
    · have := (h1.starts a b hab).resolve_right nofun
      omega
    · omega
    · have := h1.exit ha
      omega
  have hmore : ∀ a b, .link a b ∈ more.1.pieces →
      a ≤ n + 2 ∨ m < a ∧ a ≤ m + more.1.pieces.length :=
    fun a b hab => (h2.starts a b hab).elim .inr fun h => .inl (by omega)
  have hother : ∀ a b, .link a b ∈ other.branch more.2 (n + 2) →
      a ≤ n + 2 ∨ more.1.exit = some a ∨ m + more.1.pieces.length < a := by
    intro a b hab
    rcases mem_branch.1 hab with hab | ⟨rfl, -⟩ | ⟨ha, -⟩
    · exact .inr (.inr ((h3.starts a b hab).resolve_right nofun).1)
    · exact hlast.imp (by omega) .inl
    · exact .inr (.inr (h3.exit ha).1)
  refine ⟨?_, ?_, ?_⟩
  · refine inside_of_append [.shape value, .shape ""]
      (flow (some (n + 1)) (one.entry.or (some (n + 2))) ++ flow one.exit (some (n + 2)) ++
        (more.1.pieces ++ other.branch more.2 (n + 2))) ?_ rfl (by simp) ?_
      fun a ha => .inl (hout a ha)
    · simp [hpieces, branch]
    · intro a b hab
      simp only [List.mem_append, mem_flow] at hab
      rcases hab with (⟨ha, -⟩ | ⟨ha, -⟩) | hab | hab
      · exact .inl (by have := Option.some.inj ha; omega)
      · exact .inr (.inr ha)
      · have := hmore a b hab
        omega
      · rcases hother a b hab with h | h | h
        · exact .inl h
        · exact .inr (.inl (by have := h2.exit h; omega))
        · omega
  · refine inside_of_append (.shape value :: .shape "" :: one.branch (n + 1) (n + 2))
      (other.branch more.2 (n + 2)) ?_ ?_ ?_ ?_ fun a ha => .inl ?_
    · simp [hpieces]
    · rw [← hm, List.length_cons, List.length_cons]
      omega
    · intro a b hab
      simp only [List.mem_cons, reduceCtorEq, false_or] at hab
      exact hone a b hab
    · intro a b hab
      rcases hother a b hab with h | h | h
      · exact .inl (by omega)
      · exact .inr (.inr h)
      · exact .inr (.inl h)
    · have := hout a ha
      omega
  · refine inside_of_append
      (.shape value :: .shape "" :: (one.branch (n + 1) (n + 2) ++ more.1.pieces))
      (flow (some more.2) (other.entry.or (some (n + 2))) ++
        flow other.exit (some (n + 2))) ?_ ?_ ?_ ?_ fun a ha => .inl ?_
    · simp [hpieces, branch]
    · rw [← hm, List.length_cons, List.length_cons, List.length_append]
      omega
    · intro a b hab
      simp only [List.mem_cons, reduceCtorEq, false_or, List.mem_append] at hab
      rcases hab with hab | hab
      · have := hone a b hab
        omega
      · have := hmore a b hab
        omega
    · intro a b hab
      simp only [List.mem_append, mem_flow] at hab
      rcases hab with ⟨ha, -⟩ | ⟨ha, -⟩
      · obtain rfl := Option.some.inj ha
        rcases hlast with h | h
        · exact .inl (by omega)
        · exact .inl (h2.exit h).2
      · exact .inr (.inr ha)
    · have := hout a ha
      omega

/-- A list that is done again stands inside the loop. -/
lemma inside_again {n m : Nat} {o whole : Outline} {start : Option Nat} {condition : String}
    (values : List String) (hm : n + values.length = m) (hstart : ∀ a, start = some a → a ≤ m)
    (hpieces : whole.pieces = values.map Piece.shape ++ o.again m start condition)
    (hexit : whole.exit = some (o.test m start)) : Inside m o n whole := by
  have htest : m + o.pieces.length < o.test m start := by
    unfold test
    omega
  refine inside_of_append (values.map Piece.shape)
    (flow start o.entry ++ (.shape condition ::
      (flow o.exit (o.test m start) ++ [.link (o.test m start) (o.top m start)])))
    (by rw [hpieces, again]) (by rw [List.length_map, hm]) (by simp) ?_ ?_
  · intro a b hab
    simp only [List.mem_append, mem_flow, List.mem_cons, reduceCtorEq, false_or, Piece.link.injEq,
      List.not_mem_nil, or_false] at hab
    rcases hab with ⟨ha, -⟩ | ⟨ha, -⟩ | ⟨rfl, -⟩
    · exact .inl (hstart a ha)
    · exact .inr (.inr ha)
    · exact .inr (.inl htest)
  · intro a ha
    rw [hexit] at ha
    obtain rfl := Option.some.inj ha
    exact .inr (.inl htest)

/-- The first instruction and the rest stand inside a list. -/
lemma inside_list {n m : Nat} {before : Option Nat} {one more : Outline} (whole : Outline)
    (h1 : one.Fits n fun _ => False) (h2 : more.Fits m ((one.exit.or before) = some ·))
    (hbefore : ∀ b, before = some b → b ≤ n)
    (hm : n + one.pieces.length + (flow before one.entry).length = m)
    (hpieces : whole.pieces = one.pieces ++ (flow before one.entry ++ more.pieces))
    (hends : whole.ends = span one.ends more.ends) :
    Inside n one n whole ∧ Inside m more n whole := by
  have hexit : ∀ a, whole.exit = some a → more.exit = some a ∨ one.exit = some a := by
    intro a ha
    rw [Outline.exit, hends, map_snd_span] at ha
    exact Option.or_eq_some_iff.1 ha |>.imp_right And.right
  refine ⟨?_, ?_⟩
  · refine inside_of_append [] _ hpieces rfl nofun ?_ ?_
    · intro a b hab
      rw [List.mem_append, mem_flow] at hab
      rcases hab with ⟨ha, -⟩ | hab
      · exact .inl (hbefore a ha)
      · rcases h2.starts a b hab with h | h
        · exact .inr (.inl (by omega))
        · -- the connector into the rest comes from the instruction or from before it
          cases hx : one.exit with
          | none => exact .inl (hbefore a (by rwa [hx, Option.none_or] at h))
          | some x => exact .inr (.inr (by rwa [hx, Option.some_or] at h))
    · intro a ha
      rcases hexit a ha with h | h
      · exact .inr (.inl (by have := h2.exit h; omega))
      · exact .inr (.inr h)
  · refine inside_of_append (one.pieces ++ flow before one.entry) []
      (by rw [hpieces, List.append_assoc, List.append_nil]) ?_ ?_ nofun ?_
    · rw [List.length_append, ← hm, Nat.add_assoc]
    · intro a b hab
      rw [List.mem_append, mem_flow] at hab
      rcases hab with hab | ⟨ha, -⟩
      · have := (h1.starts a b hab).resolve_right id
        omega
      · have := hbefore a ha
        omega
    · intro a ha
      rcases hexit a ha with h | h
      · exact .inr (.inr h)
      · exact .inl (by have := h1.exit h; omega)

/-- The body of a further branch and the branches behind it stand inside these branches. -/
lemma inside_others {n m merge before : Nat} {inner : Outline} {more : Outline × Nat}
    {value : String} (whole : Outline) (h1 : inner.Fits (n + 2) (none = some ·))
    (h2 : more.1.Fits m (· = n + 1))
    (hbefore : before ≤ n) (hm : n + 2 + (inner.branch (n + 1) merge).length = m)
    (hlast : more.2 = n + 1 ∨ more.1.exit = some more.2)
    (hpieces : whole.pieces = .shape value :: .link before (n + 1) ::
      (inner.branch (n + 1) merge ++ more.1.pieces))
    (hexit : whole.exit = some more.2) :
    Inside (n + 2) inner n whole ∧ Inside m more.1 n whole := by
  have hout : ∀ a, whole.exit = some a → a = n + 1 ∨ more.1.exit = some a := by
    intro a ha
    rw [hexit] at ha
    obtain rfl := Option.some.inj ha
    exact hlast
  have hle : n + 2 + inner.pieces.length ≤ m := by
    rw [← hm, branch, List.length_append]
    omega
  refine ⟨?_, ?_⟩
  · refine inside_of_append [.shape value, .link before (n + 1)]
      (flow (some (n + 1)) (inner.entry.or (some merge)) ++
        flow inner.exit (some merge) ++ more.1.pieces) ?_ rfl ?_ ?_ ?_
    · simp [hpieces, branch]
    · intro a b hab
      simp only [List.mem_cons, reduceCtorEq, Piece.link.injEq, List.not_mem_nil, or_false,
        false_or] at hab
      omega
    · intro a b hab
      simp only [List.mem_append, mem_flow] at hab
      rcases hab with (⟨ha, -⟩ | ⟨ha, -⟩) | hab
      · exact .inl (by have := Option.some.inj ha; omega)
      · exact .inr (.inr ha)
      · rcases h2.starts a b hab with h | h
        · exact .inr (.inl (by omega))
        · exact .inl (by omega)
    · intro a ha
      rcases hout a ha with h | h
      · exact .inl (by omega)
      · exact .inr (.inl (by have := h2.exit h; omega))
  · refine inside_of_append (.shape value :: .link before (n + 1) ::
      inner.branch (n + 1) merge) [] ?_ ?_ ?_ nofun ?_
    · simp [hpieces]
    · rw [← hm, List.length_cons, List.length_cons]
      omega
    · intro a b hab
      simp only [List.mem_cons, reduceCtorEq, Piece.link.injEq, false_or] at hab
      rcases hab with ⟨rfl, -⟩ | hab
      · omega
      · rcases mem_branch.1 hab with hab | ⟨rfl, -⟩ | ⟨ha, -⟩
        · have := (h1.starts a b hab).resolve_right nofun
          omega
        · omega
        · have := h1.exit ha
          omega
    · intro a ha
      rcases hout a ha with h | h
      · exact .inl (by omega)
      · exact .inr (.inr h)

/-- The body of a branch and the branches behind it stand inside the branches between two cells. -/
lemma inside_branches {n m source target : Nat} {outer : Nat → Prop} {inner more : Outline}
    (whole : Outline) (h1 : inner.Fits n (none = some ·)) (h2 : more.Fits m outer)
    (houter : ∀ a, outer a → a = source) (hsource : source ≤ n)
    (hm : n + (inner.strand source target).length = m)
    (hpieces : whole.pieces = inner.strand source target ++ more.pieces)
    (hexit : whole.exit = none) : Inside n inner n whole ∧ Inside m more n whole := by
  have hout : ∀ a, whole.exit ≠ some a := by
    rw [hexit]
    exact nofun
  have hle : n + inner.pieces.length ≤ m := by
    rw [← hm, strand, List.length_append]
    omega
  refine ⟨?_, ?_⟩
  · refine inside_of_append []
      (flow (some source) inner.entry ++ flow inner.exit (some target) ++ more.pieces)
      ?_ rfl nofun ?_ fun a ha => absurd ha (hout a)
    · simp [hpieces, strand]
    · intro a b hab
      simp only [List.mem_append, mem_flow] at hab
      rcases hab with (⟨ha, -⟩ | ⟨ha, -⟩) | hab
      · exact .inl (by have := Option.some.inj ha; omega)
      · exact .inr (.inr ha)
      · rcases h2.starts a b hab with h | h
        · exact .inr (.inl (by omega))
        · exact .inl (by have := houter a h; omega)
  · refine inside_of_append (inner.strand source target) []
      (by rw [hpieces, List.append_nil]) hm ?_ nofun fun a ha => absurd ha (hout a)
    intro a b hab
    rcases mem_strand.1 hab with hab | ⟨rfl, -⟩ | ⟨ha, -⟩
    · have := (h1.starts a b hab).resolve_right nofun
      omega
    · omega
    · have := h1.exit ha
      omega

end Outline

namespace Instruction

/-- The place is that of its instruction: the instruction has an outline inside that comes in and
goes out there. -/
def Settled (n : Nat) (whole : Outline) (p : Place) : Prop :=
  ∃ m, (outline m p.instruction).ends = some (p.entry, p.exit) ∧
    Inside m (outline m p.instruction) n whole

lemma Settled.inside {m n : Nat} {o whole : Outline} {p : Place} (h : Settled m o p)
    (hin : Inside m o n whole) : Settled n whole p := by
  obtain ⟨l, hends, hp⟩ := h
  exact ⟨l, hends, hp.trans hin⟩

mutual

lemma settled_outline (n : Nat) : (i : Instruction) → ∀ p ∈ (outline n i).places,
    Settled n (outline n i) p
  | step nd s => by
    have hself := Inside.refl n (outline n (step nd s))
    intro p hp
    cases s with
    | arrow | note | leave => cases hp
    | action | start | stop | finish | kill =>
      obtain rfl := List.mem_singleton.1 hp
      exact ⟨n, rfl, hself⟩
  | choice nd c first others last => by
    have hself := Inside.refl n (outline n (choice nd c first others last))
    intro p hp
    unfold outline at hp
    split at hp
    · next honly =>
      obtain rfl := List.mem_singleton.1 hp
      refine ⟨n, ?_, hself⟩
      unfold outline
      rw [if_pos honly]
    · next honly =>
      rcases List.mem_cons.1 hp with rfl | hp
      · refine ⟨n, ?_, hself⟩
        unfold outline
        rw [if_neg honly]
      clear hself
      unfold outline
      rw [if_neg honly]
      dsimp only at hp ⊢
      have h1 := fits_outlineAll (n + 2) none first
      have hp1 := settled_outlineAll (n + 2) none nofun first
      generalize outlineAll (n + 2) none first = one at *
      generalize hm : n + 2 + (one.branch (n + 1) (n + 2)).length = m at *
      obtain ⟨h2, hlast⟩ := fits_outlineOthers m (n + 2) (n + 1) others
      have hp2 := settled_outlineOthers m (n + 2) (n + 1) (by omega) others
      generalize outlineOthers m (n + 2) (n + 1) others = more at *
      have h3 := fits_outlineAll (m + more.1.pieces.length) none last
      have hp3 := settled_outlineAll (m + more.1.pieces.length) none nofun last
      generalize outlineAll (m + more.1.pieces.length) none last = other at *
      obtain ⟨hin1, hin2, hin3⟩ := inside_choice
        ⟨some (n + 1, n + 2), .shape c.condition :: .shape "" ::
          (one.branch (n + 1) (n + 2) ++ (more.1.pieces ++ other.branch more.2 (n + 2))), _⟩
        h1 h2 h3 hm hlast rfl rfl
      rcases List.mem_append.1 hp with hp | hp
      · rcases List.mem_append.1 hp with hp | hp
        · exact (hp1 p hp).inside hin1
        · exact (hp2 p hp).inside hin2
      · exact (hp3 p hp).inside hin3
  | loop nd l body => by
    intro p hp
    have hself := Inside.refl n (outline n (loop nd l body))
    cases htest : l.test with
    | before =>
      have hinner := settled_outlineAll (n + 1) none nofun body
      simp only [outline, htest] at hp hself ⊢
      rcases List.mem_cons.1 hp with rfl | hp
      · exact ⟨n, by simp only [outline, htest], by simpa only [outline, htest] using hself⟩
      · refine (hinner p hp).inside (inside_of_append [.shape l.condition] _ rfl rfl
          (by simp) ?_ ?_)
        · intro a b hab
          rw [List.mem_append, mem_flow, mem_flow] at hab
          rcases hab with ⟨ha, -⟩ | ⟨ha, -⟩
          · exact .inl (Nat.le_of_eq (Option.some.inj ha).symm)
          · exact .inr (.inr ha)
        · rintro a ⟨⟩
          exact .inl (Nat.le_refl _)
    | after startLabel =>
      simp only [outline, htest] at hp hself ⊢
      rcases List.mem_cons.1 hp with rfl | hp
      · exact ⟨n, by simp only [outline, htest], by simpa only [outline, htest] using hself⟩
      cases startLabel with
      | none =>
        have hinner := settled_outlineAll n none nofun body
        exact (hinner p hp).inside (inside_again [] rfl (by simp) rfl rfl)
      | some label =>
        have hinner := settled_outlineAll (n + 1) none nofun body
        refine (hinner p hp).inside (inside_again [label] rfl ?_ rfl rfl)
        rintro a ⟨⟩
        exact Nat.le_refl _
  | switch nd condition color cases => by
    have hinner := settled_outlineBranches (n + 2) (n + 1) (n + 2) (by omega) cases
    intro p hp
    rcases List.mem_cons.1 hp with rfl | hp
    · exact ⟨n, rfl, Inside.refl n _⟩
    · refine (hinner p hp).inside (inside_of_shapes [condition, ""] rfl ?_)
      rintro a ⟨⟩
      exact .inl (Nat.le_refl _)
  | fork nd isSplit branches => by
    have hinner := settled_outlineBranches (n + 2) (n + 1) (n + 2) (by omega) branches
    intro p hp
    rcases List.mem_cons.1 hp with rfl | hp
    · exact ⟨n, rfl, Inside.refl n _⟩
    · refine (hinner p hp).inside (inside_of_shapes ["", ""] rfl ?_)
      rintro a ⟨⟩
      exact .inl (Nat.le_refl _)
  | partition nd name color body => by
    have hinner := settled_outlineAll (n + 1) none nofun body
    intro p hp
    rcases List.mem_cons.1 hp with rfl | hp
    · exact ⟨n, rfl, Inside.refl n _⟩
    · refine (hinner p hp).inside (inside_of_shapes [name] rfl ?_)
      intro a ha
      -- without a flow inside, the flow stays at the frame
      rw [Outline.exit, outline] at ha
      cases hends : (outlineAll (n + 1) none body).ends with
      | none =>
        rw [hends] at ha
        cases ha
        exact .inl (Nat.le_refl _)
      | some e =>
        rw [hends] at ha
        cases ha
        exact .inr (exit_eq_some.2 ⟨e, hends, rfl⟩)

lemma settled_outlineAll (n : Nat) (before : Option Nat) (hbefore : ∀ b, before = some b → b ≤ n) :
    (is : List Instruction) → ∀ p ∈ (outlineAll n before is).places,
      Settled n (outlineAll n before is) p
  | [] => by simp [outlineAll]
  | i :: rest => by
    have h1 := fits_outline n i
    have hp1 := settled_outline n i
    unfold outlineAll
    dsimp only
    generalize outline n i = one at *
    generalize hm : n + one.pieces.length + (flow before one.entry).length = m at *
    have h2 := fits_outlineAll m (one.exit.or before) rest
    have hle : ∀ b, one.exit.or before = some b → b ≤ m := by
      intro b hb
      cases hx : one.exit with
      | none =>
        rw [hx, Option.none_or] at hb
        have := hbefore b hb
        omega
      | some x =>
        rw [hx, Option.some_or] at hb
        obtain rfl := Option.some.inj hb
        have := h1.exit hx
        omega
    have hp2 := settled_outlineAll m (one.exit.or before) hle rest
    generalize outlineAll m (one.exit.or before) rest = more at *
    obtain ⟨hin1, hin2⟩ := inside_list ⟨span one.ends more.ends,
      one.pieces ++ (flow before one.entry ++ more.pieces), one.places ++ more.places⟩
      h1 h2 hbefore hm rfl rfl
    intro p hp
    rcases List.mem_append.1 hp with hp | hp
    · exact (hp1 p hp).inside hin1
    · exact (hp2 p hp).inside hin2

lemma settled_outlineOthers (n merge before : Nat) (hbefore : before ≤ n) :
    (others : List (Branch Instruction)) →
      ∀ p ∈ (outlineOthers n merge before others).1.places,
        Settled n (outlineOthers n merge before others).1 p
  | [] => by simp [outlineOthers]
  | ⟨condition, label, body⟩ :: rest => by
    have h1 := fits_outlineAll (n + 2) none body
    have hp1 := settled_outlineAll (n + 2) none nofun body
    unfold outlineOthers
    dsimp only
    generalize outlineAll (n + 2) none body = inner at *
    generalize hm : n + 2 + (inner.branch (n + 1) merge).length = m at *
    obtain ⟨h2, hlast⟩ := fits_outlineOthers m merge (n + 1) rest
    have hp2 := settled_outlineOthers m merge (n + 1) (by omega) rest
    generalize outlineOthers m merge (n + 1) rest = more at *
    obtain ⟨hin1, hin2⟩ := inside_others ⟨some (n + 1, more.2),
      .shape condition :: .link before (n + 1) :: (inner.branch (n + 1) merge ++ more.1.pieces),
      inner.places ++ more.1.places⟩ h1 h2 hbefore hm hlast rfl rfl
    intro p hp
    rcases List.mem_append.1 hp with hp | hp
    · exact (hp1 p hp).inside hin1
    · exact (hp2 p hp).inside hin2

lemma settled_outlineBranches (n source target : Nat) (hsource : source ≤ n) :
    (branches : List (Branch Instruction)) →
      ∀ p ∈ (outlineBranches n source target branches).places,
        Settled n (outlineBranches n source target branches) p
  | [] => by simp [outlineBranches]
  | ⟨condition, label, body⟩ :: rest => by
    have h1 := fits_outlineAll n none body
    have hp1 := settled_outlineAll n none nofun body
    unfold outlineBranches
    dsimp only
    generalize outlineAll n none body = inner at *
    generalize hm : n + (inner.strand source target).length = m at *
    have h2 := fits_outlineBranches m source target rest
    have hp2 := settled_outlineBranches m source target (by omega) rest
    generalize outlineBranches m source target rest = more at *
    obtain ⟨hin1, hin2⟩ := inside_branches
      ⟨none, inner.strand source target ++ more.pieces, inner.places ++ more.places⟩ h1 h2
      (fun a ha => ha.1) hsource hm rfl rfl
    intro p hp
    rcases List.mem_append.1 hp with hp | hp
    · exact (hp1 p hp).inside hin1
    · exact (hp2 p hp).inside hin2

end

end Instruction

end Activity
end UmlDraw
