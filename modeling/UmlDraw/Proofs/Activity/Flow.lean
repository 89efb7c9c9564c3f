/-
# The flow through an activity drawing

In the drawing of an activity without killed flows, connectors lead from the way into an
instruction to the way out of it, and from the first instruction to every other one, if each
switch, fork and split has a branch with a flow and each loop with a shape before its body has a
flow in it.  Where there is none, the drawing has no connector between the two ends, and the flow is
cut.

The main statements are

* `Instruction.threads_outline` and the three lemmas beside it: the ways through an instruction, a
  list and branches;
* `Instruction.not_reaches_of_not_hasWay`: where the flow is cut;
* `Diagram.flows_read`: the ways through the drawing of a text.
-/
import Mathlib.Logic.Relation
import UmlDraw.Proofs.Activity.Inside
import UmlDraw.Proofs.Activity.Order
import UmlDraw.Proofs.Activity.Pieces
import UmlDraw.Proofs.Drawing.Activity

namespace UmlDraw
namespace Activity

open Outline

/-! ### Ways through an outline -/

/-- Connectors lead from the first cell to the second one. -/
def Reaches (ps : List Piece) : Nat → Nat → Prop :=
  Relation.ReflTransGen fun a b => .link a b ∈ ps

lemma Reaches.mono {ps qs : List Piece} {a b : Nat} (h : Reaches ps a b) (hsub : ps ⊆ qs) :
    Reaches qs a b :=
  Relation.ReflTransGen.mono (fun _ _ hab => hsub hab) a b h

lemma reaches_link {ps : List Piece} {a b : Nat} (h : .link a b ∈ ps) : Reaches ps a b :=
  Relation.ReflTransGen.single h

/-- Nothing is reached from a cell at which no connector starts. -/
lemma not_reaches {ps : List Piece} {a b : Nat} (h : ∀ c, .link a c ∉ ps) (hne : a ≠ b) :
    ¬ Reaches ps a b := by
  intro hab
  rcases Relation.ReflTransGen.cases_head hab with rfl | ⟨c, hac, -⟩
  · exact hne rfl
  · exact h c hac

namespace Outline

/-- The flow is not cut: from the way in, connectors lead to the way out and to each instruction. -/
structure Threads (o : Outline) : Prop where
  exit : ∀ e, o.ends = some e → Reaches o.pieces e.1 e.2
  places : ∀ e, o.ends = some e → ∀ p ∈ o.places, Reaches o.pieces e.1 p.entry
  empty : o.ends = none → o.places = []

variable {o : Outline} {source target : Nat}

lemma Threads.strand (h : o.Threads) (source target : Nat) :
    (o.ends.isSome = true → Reaches (o.strand source target) source target) ∧
      ∀ p ∈ o.places, Reaches (o.strand source target) source p.entry := by
  cases hends : o.ends with
  | none => simp [h.empty hends]
  | some e =>
    have hsub : o.pieces ⊆ o.strand source target := List.subset_append_left _ _
    have hin : Reaches (o.strand source target) source e.1 :=
      reaches_link (mem_strand.2 (.inr (.inl ⟨rfl, entry_eq_some.2 ⟨e, hends, rfl⟩⟩)))
    have hout : Reaches (o.strand source target) e.2 target :=
      reaches_link (mem_strand.2 (.inr (.inr ⟨exit_eq_some.2 ⟨e, hends, rfl⟩, rfl⟩)))
    exact ⟨fun _ => (hin.trans ((h.exit e hends).mono hsub)).trans hout,
      fun p hp => hin.trans ((h.places e hends p hp).mono hsub)⟩

lemma Threads.branch (h : o.Threads) (source target : Nat) :
    Reaches (o.branch source target) source target ∧
      ∀ p ∈ o.places, Reaches (o.branch source target) source p.entry := by
  cases hends : o.ends with
  | none =>
    have hentry : o.entry.or (some target) = some target := by
      rw [entry, hends]
      rfl
    refine ⟨reaches_link (mem_branch.2 (.inr (.inl ⟨rfl, hentry⟩))), ?_⟩
    simp [h.empty hends]
  | some e =>
    have hsub : o.pieces ⊆ o.branch source target := List.subset_append_left _ _
    have hentry : o.entry.or (some target) = some e.1 := by
      rw [entry, hends]
      rfl
    have hin : Reaches (o.branch source target) source e.1 :=
      reaches_link (mem_branch.2 (.inr (.inl ⟨rfl, hentry⟩)))
    have hout : Reaches (o.branch source target) e.2 target :=
      reaches_link (mem_branch.2 (.inr (.inr ⟨exit_eq_some.2 ⟨e, hends, rfl⟩, rfl⟩)))
    exact ⟨(hin.trans ((h.exit e hends).mono hsub)).trans hout,
      fun p hp => hin.trans ((h.places e hends p hp).mono hsub)⟩

/-- A loop is not cut if there is a flow behind the shape before it, or no such shape. -/
lemma Threads.again (h : o.Threads) (n : Nat) {start : Option Nat} (condition : String)
    (hstart : start.isSome = true → o.ends.isSome = true) :
    Reaches (o.again n start condition) (o.top n start) (o.test n start) ∧
      ∀ p ∈ o.places, Reaches (o.again n start condition) (o.top n start) p.entry := by
  cases hends : o.ends with
  | none =>
    rw [hends] at hstart
    have hnone : start = none := by
      cases start with
      | none => rfl
      | some s => cases hstart rfl
    have htop : o.top n start = o.test n start := by
      rw [top, hnone, entry, hends]
      rfl
    rw [htop]
    refine ⟨Relation.ReflTransGen.refl, ?_⟩
    simp [h.empty hends]
  | some e =>
    have hsub : o.pieces ⊆ o.again n start condition := List.subset_append_left _ _
    have hentry : o.entry = some e.1 := entry_eq_some.2 ⟨e, hends, rfl⟩
    have hin : Reaches (o.again n start condition) (o.top n start) e.1 := by
      unfold top
      cases start with
      | none =>
        rw [hentry]
        exact Relation.ReflTransGen.refl
      | some s => exact reaches_link (mem_again.2 (.inr (.inl ⟨rfl, hentry⟩)))
    have hout : Reaches (o.again n start condition) e.2 (o.test n start) :=
      reaches_link (mem_again.2 (.inr (.inr (.inl ⟨exit_eq_some.2 ⟨e, hends, rfl⟩, rfl⟩))))
    exact ⟨(hin.trans ((h.exit e hends).mono hsub)).trans hout,
      fun p hp => hin.trans ((h.places e hends p hp).mono hsub)⟩

/-- Two flows one after the other, if connectors lead from the way out of the first one to the way
into the second one. -/
lemma Threads.append {one more : Outline} {ps : List Piece}
    (h1 : one.Threads) (h2 : more.Threads)
    (hjoin : ∀ e1, one.ends = some e1 → ∀ e2, more.ends = some e2 →
      Reaches more.pieces e1.2 e2.1)
    (hsub1 : one.pieces ⊆ ps) (hsub2 : more.pieces ⊆ ps) :
    Threads ⟨span one.ends more.ends, ps, one.places ++ more.places⟩ := by
  cases hone : one.ends with
  | none =>
    rw [h1.empty hone, List.nil_append]
    exact ⟨fun e he => (h2.exit e he).mono hsub2, fun e he p hp => (h2.places e he p hp).mono hsub2,
      h2.empty⟩
  | some e1 =>
    have hexit1 := (h1.exit e1 hone).mono hsub1
    have hplaces1 := fun p hp => (h1.places e1 hone p hp).mono hsub1
    cases hmore : more.ends with
    | none =>
      rw [h2.empty hmore, List.append_nil]
      refine ⟨?_, ?_, nofun⟩
      · rintro e ⟨⟩
        exact hexit1
      · rintro e ⟨⟩
        exact hplaces1
    | some e2 =>
      have hin2 := hexit1.trans ((hjoin e1 hone e2 hmore).mono hsub2)
      refine ⟨?_, ?_, nofun⟩
      · rintro e ⟨⟩
        exact hin2.trans ((h2.exit e2 hmore).mono hsub2)
      · rintro e ⟨⟩
        exact List.forall_mem_append.2
          ⟨hplaces1, fun p hp => hin2.trans ((h2.places e2 hmore p hp).mono hsub2)⟩

end Outline

namespace Instruction

/-- There is a way through the instruction, if there is one through those inside: a switch, a fork
or a split needs a branch with a flow, and a loop with a shape before its body needs a flow in it.
A decision is passed through empty branches as well. -/
def hasWay : Instruction → Bool
  | switch _ _ _ cases => cases.any fun b => hasFlow b.body
  | fork _ _ branches => branches.any fun b => hasFlow b.body
  | loop _ l body =>
    match l.test with
    | .after (some _) => hasFlow body
    | _ => true
  | _ => true

/-- The flow comes into a list from the cell before it. -/
lemma reaches_outlineAll {s : Nat} {e : Nat × Nat} {is : List Instruction} {n : Nat}
    (he : (outlineAll n (some s) is).ends = some e) :
    Reaches (outlineAll n (some s) is).pieces s e.1 := by
  induction is generalizing n with
  | nil => cases he
  | cons i rest ih =>
    unfold outlineAll at he ⊢
    dsimp only at he ⊢
    cases hone : (outline n i).ends with
    | none =>
      have hexit : (outline n i).exit = none := by rw [Outline.exit, hone]; rfl
      rw [hone, hexit, Option.none_or] at he
      rw [hexit, Option.none_or]
      refine (ih he).mono ?_
      exact fun p hp => List.mem_append_right _ (List.mem_append_right _ hp)
    | some e1 =>
      have hentry : (outline n i).entry = some e1.1 := by rw [Outline.entry, hone]; rfl
      have he1 : e.1 = e1.1 := by
        rw [hone] at he
        cases hmore : (outlineAll (n + (outline n i).pieces.length +
            (flow (some s) (outline n i).entry).length)
            ((outline n i).exit.or (some s)) rest).ends <;>
          rw [hmore] at he <;> cases he <;> rfl
      rw [he1]
      refine reaches_link ?_
      rw [List.mem_append, List.mem_append, mem_flow]
      exact .inr (.inl ⟨rfl, hentry⟩)

/-- The first cell of an outline leads to its way out and to the places inside it. -/
lemma threads_of_first {o : Outline} {i : Instruction} {entry exit : Nat} {places : List Place}
    (hends : o.ends = some (entry, exit)) (hplaces : o.places = ⟨i, entry, exit⟩ :: places)
    (hexit : Reaches o.pieces entry exit)
    (hinside : ∀ p ∈ places, Reaches o.pieces entry p.entry) : o.Threads := by
  refine ⟨?_, ?_, fun h => nomatch h.symm.trans hends⟩
  · intro e he
    obtain rfl := Option.some.inj (hends.symm.trans he)
    exact hexit
  · intro e he p hp
    obtain rfl := Option.some.inj (hends.symm.trans he)
    rw [hplaces] at hp
    rcases List.mem_cons.1 hp with rfl | hp
    · exact Relation.ReflTransGen.refl
    · exact hinside p hp

mutual

lemma threads_outline (n : Nat) : (i : Instruction) → (∀ j ∈ i.walk, j.hasWay = true) →
    (outline n i).Threads
  | step nd s, _ => by
    cases s with
    | arrow | note | leave => exact ⟨nofun, nofun, fun _ => rfl⟩
    | action | start | stop | finish | kill =>
      exact threads_of_first rfl rfl Relation.ReflTransGen.refl nofun
  | choice nd c first others last, h => by
    simp only [walk, List.forall_mem_cons, List.forall_mem_append] at h
    obtain ⟨-, ⟨hfirst, hothers⟩, hlast⟩ := h
    unfold outline
    split
    · exact threads_of_first rfl rfl Relation.ReflTransGen.refl nofun
    · have h1 := (threads_outlineAll (n + 2) none first hfirst).branch (n + 1) (n + 2)
      dsimp only
      generalize outlineAll (n + 2) none first = one at *
      generalize n + 2 + (one.branch (n + 1) (n + 2)).length = m at *
      obtain ⟨hmore, h2⟩ := threads_outlineOthers m (n + 2) (n + 1) others hothers
      generalize outlineOthers m (n + 2) (n + 1) others = more at *
      have h3 := (threads_outlineAll (m + more.1.pieces.length) none last hlast).branch
        more.2 (n + 2)
      generalize outlineAll (m + more.1.pieces.length) none last = other at *
      have hsub1 : one.branch (n + 1) (n + 2) ⊆ .shape c.condition :: .shape "" ::
          (one.branch (n + 1) (n + 2) ++ (more.1.pieces ++ other.branch more.2 (n + 2))) :=
        fun p hp => by simp [hp]
      have hsub2 : more.1.pieces ⊆ .shape c.condition :: .shape "" ::
          (one.branch (n + 1) (n + 2) ++ (more.1.pieces ++ other.branch more.2 (n + 2))) :=
        fun p hp => by simp [hp]
      have hsub3 : other.branch more.2 (n + 2) ⊆ .shape c.condition :: .shape "" ::
          (one.branch (n + 1) (n + 2) ++ (more.1.pieces ++ other.branch more.2 (n + 2))) :=
        fun p hp => by simp [hp]
      refine threads_of_first rfl rfl (h1.1.mono hsub1) fun p hp => ?_
      simp only [List.mem_append] at hp
      rcases hp with (hp | hp) | hp
      · exact (h1.2 p hp).mono hsub1
      · exact (h2 p hp).mono hsub2
      · exact (hmore.mono hsub2).trans ((h3.2 p hp).mono hsub3)
  | loop nd l body, h => by
    rw [walk, List.forall_mem_cons] at h
    obtain ⟨hway, hbody⟩ := h
    unfold outline
    cases htest : l.test with
    | before =>
      have hinner := (threads_outlineAll (n + 1) none body hbody).strand (n + 1) (n + 1)
      refine threads_of_first rfl rfl Relation.ReflTransGen.refl fun p hp => ?_
      exact (hinner.2 p hp).mono (List.subset_cons_self _ _)
    | after startLabel =>
      simp only [hasWay, htest] at hway
      dsimp only
      generalize hm : n + (startLabel.toList.map Piece.shape).length = m
      have hinner := threads_outlineAll m none body hbody
      have hends := isSome_ends_outlineAll m none body
      generalize outlineAll m none body = inner at *
      obtain ⟨hexit, hplaces⟩ := hinner.again m l.condition
        (show (startLabel.map fun _ => n + 1).isSome = true → inner.ends.isSome = true by
          intro hstart
          rw [hends]
          cases startLabel with
          | none => cases hstart
          | some label => exact hway)
      have hsub := List.subset_append_right (startLabel.toList.map Piece.shape)
        (inner.again m (startLabel.map fun _ => n + 1) l.condition)
      exact threads_of_first rfl rfl (hexit.mono hsub) fun p hp => (hplaces p hp).mono hsub
  | switch nd condition color cases, h => by
    rw [walk, List.forall_mem_cons] at h
    obtain ⟨hway, hinner⟩ := h
    obtain ⟨hexit, hplaces⟩ := threads_outlineBranches (n + 2) (n + 1) (n + 2) cases hinner
    have hsub := List.subset_append_right [.shape condition, .shape ""]
      (outlineBranches (n + 2) (n + 1) (n + 2) cases).pieces
    exact threads_of_first rfl rfl ((hexit hway).mono hsub) fun p hp => (hplaces p hp).mono hsub
  | fork nd isSplit branches, h => by
    rw [walk, List.forall_mem_cons] at h
    obtain ⟨hway, hinner⟩ := h
    obtain ⟨hexit, hplaces⟩ := threads_outlineBranches (n + 2) (n + 1) (n + 2) branches hinner
    have hsub := List.subset_append_right [.shape "", .shape ""]
      (outlineBranches (n + 2) (n + 1) (n + 2) branches).pieces
    exact threads_of_first rfl rfl ((hexit hway).mono hsub) fun p hp => (hplaces p hp).mono hsub
  | partition nd name color body, h => by
    rw [walk, List.forall_mem_cons] at h
    have hinner := threads_outlineAll (n + 1) none body h.2
    unfold outline
    dsimp only
    generalize outlineAll (n + 1) none body = inner at *
    have hsub := List.subset_cons_self (.shape name) inner.pieces
    cases hends : inner.ends with
    | none =>
      rw [hinner.empty hends]
      exact threads_of_first rfl rfl Relation.ReflTransGen.refl nofun
    | some e =>
      exact threads_of_first rfl rfl ((hinner.exit e hends).mono hsub) fun p hp =>
        (hinner.places e hends p hp).mono hsub

lemma threads_outlineAll (n : Nat) (before : Option Nat) :
    (is : List Instruction) → (∀ j ∈ walkAll is, j.hasWay = true) →
      (outlineAll n before is).Threads
  | [], _ => ⟨nofun, nofun, fun _ => rfl⟩
  | i :: rest, h => by
    rw [walkAll, List.forall_mem_append] at h
    have h1 := threads_outline n i h.1
    unfold outlineAll
    dsimp only
    generalize outline n i = one at *
    generalize n + one.pieces.length + (flow before one.entry).length = m at *
    have h2 := threads_outlineAll m (one.exit.or before) rest h.2
    have hjoin : ∀ e1, one.ends = some e1 → ∀ e2,
        (outlineAll m (one.exit.or before) rest).ends = some e2 →
          Reaches (outlineAll m (one.exit.or before) rest).pieces e1.2 e2.1 := by
      intro e1 hone e2
      have hexit : one.exit = some e1.2 := exit_eq_some.2 ⟨e1, hone, rfl⟩
      rw [hexit, Option.some_or]
      exact reaches_outlineAll
    generalize outlineAll m (one.exit.or before) rest = more at *
    have hsub1 : one.pieces ⊆ one.pieces ++ (flow before one.entry ++ more.pieces) :=
        fun p hp => by simp [hp]
    have hsub2 : more.pieces ⊆ one.pieces ++ (flow before one.entry ++ more.pieces) :=
        fun p hp => by simp [hp]
    exact h1.append h2 hjoin hsub1 hsub2

lemma threads_outlineOthers (n merge before : Nat) :
    (others : List (Branch Instruction)) → (∀ j ∈ walkBranches others, j.hasWay = true) →
      let more := outlineOthers n merge before others
      Reaches more.1.pieces before more.2 ∧
        ∀ p ∈ more.1.places, Reaches more.1.pieces before p.entry
  | [], _ => ⟨Relation.ReflTransGen.refl, nofun⟩
  | ⟨condition, label, body⟩ :: rest, h => by
    rw [walkBranches, List.forall_mem_append] at h
    have h1 := (threads_outlineAll (n + 2) none body h.1).branch (n + 1) merge
    unfold outlineOthers
    dsimp only
    generalize outlineAll (n + 2) none body = inner at *
    generalize n + 2 + (inner.branch (n + 1) merge).length = m at *
    have h2 := threads_outlineOthers m merge (n + 1) rest h.2
    generalize outlineOthers m merge (n + 1) rest = more at *
    have hsub1 : inner.branch (n + 1) merge ⊆ .shape condition :: .link before (n + 1) ::
        (inner.branch (n + 1) merge ++ more.1.pieces) :=
        fun p hp => by simp [hp]
    have hsub2 : more.1.pieces ⊆ .shape condition :: .link before (n + 1) ::
        (inner.branch (n + 1) merge ++ more.1.pieces) :=
        fun p hp => by simp [hp]
    have hin : Reaches (.shape condition :: .link before (n + 1) ::
        (inner.branch (n + 1) merge ++ more.1.pieces)) before (n + 1) :=
      reaches_link (by simp)
    refine ⟨hin.trans (h2.1.mono hsub2), List.forall_mem_append.2 ⟨fun p hp => ?_, fun p hp => ?_⟩⟩
    · exact hin.trans ((h1.2 p hp).mono hsub1)
    · exact hin.trans ((h2.2 p hp).mono hsub2)

lemma threads_outlineBranches (n source target : Nat) :
    (branches : List (Branch Instruction)) → (∀ j ∈ walkBranches branches, j.hasWay = true) →
      let inner := outlineBranches n source target branches
      ((branches.any fun b => hasFlow b.body) = true → Reaches inner.pieces source target) ∧
        ∀ p ∈ inner.places, Reaches inner.pieces source p.entry
  | [], _ => ⟨nofun, nofun⟩
  | ⟨condition, label, body⟩ :: rest, h => by
    rw [walkBranches, List.forall_mem_append] at h
    have h1 := (threads_outlineAll n none body h.1).strand source target
    have hends := isSome_ends_outlineAll n none body
    unfold outlineBranches
    dsimp only
    generalize outlineAll n none body = inner at *
    generalize n + (inner.strand source target).length = m at *
    have h2 := threads_outlineBranches m source target rest h.2
    generalize outlineBranches m source target rest = more at *
    have hsub1 := List.subset_append_left (inner.strand source target) more.pieces
    have hsub2 := List.subset_append_right (inner.strand source target) more.pieces
    refine ⟨?_, List.forall_mem_append.2
      ⟨fun p hp => (h1.2 p hp).mono hsub1, fun p hp => (h2.2 p hp).mono hsub2⟩⟩
    rw [List.any_cons, Bool.or_eq_true, ← hends]
    rintro (hflow | hflow)
    · exact (h1.1 hflow).mono hsub1
    · exact (h2.1 hflow).mono hsub2

end

/-- The flow comes into a list where it comes into its first instruction. -/
lemma head_places_outlineAll (n : Nat) (before : Option Nat) (is : List Instruction) :
    (outlineAll n before is).places.head?.map Place.entry = (outlineAll n before is).entry := by
  induction is generalizing n before with
  | nil => rfl
  | cons i rest ih =>
    have hone : (outline n i).places.head?.map Place.entry = (outline n i).entry := by
      unfold outline
      cases i with
      | step nd s => cases s <;> rfl
      | choice nd c first others last =>
        dsimp only
        split <;> rfl
      | loop nd l body =>
        dsimp only
        split <;> rfl
      | _ => rfl
    unfold outlineAll
    rw [List.head?_append, Option.map_or, hone, ih]
    exact (map_fst_span _ _).symm

/-! ### Where the flow is cut -/

/-- At the way into an instruction without a way through it no connector starts. -/
lemma stuck_of_not_hasWay (n : Nat) {i : Instruction} (hway : i.hasWay = false) :
    (∃ exit, (outline n i).ends = some (n + 1, exit) ∧ n + 1 < exit) ∧
      ∀ b, .link (n + 1) b ∉ (outline n i).pieces := by
  have hbars : ∀ (branches : List (Branch Instruction)) (value value' : String),
      (branches.any fun b => hasFlow b.body) = false → ∀ b, .link (n + 1) b ∉
        .shape value :: .shape value' ::
          (outlineBranches (n + 2) (n + 1) (n + 2) branches).pieces := by
    intro branches value value' hnone b hb
    simp only [List.mem_cons, reduceCtorEq, false_or] at hb
    rcases (fits_outlineBranches (n + 2) (n + 1) (n + 2) branches).starts _ b hb with h | h
    · omega
    · exact absurd h.2 (by simp [hnone])
  cases i with
  | switch nd condition color cases =>
    exact ⟨⟨n + 2, rfl, Nat.lt_succ_self _⟩, hbars cases _ _ hway⟩
  | fork nd isSplit branches =>
    exact ⟨⟨n + 2, rfl, Nat.lt_succ_self _⟩, hbars branches _ _ hway⟩
  | loop nd l body =>
    unfold hasWay at hway
    unfold outline
    cases htest : l.test with
    | before => simp [htest] at hway
    | after startLabel =>
      cases startLabel with
      | none => simp [htest] at hway
      | some label =>
        have hflow : hasFlow body = false := by simpa [htest] using hway
        have hends : (outlineAll (n + 1) none body).ends = none := by
          rw [← Option.not_isSome_iff_eq_none, isSome_ends_outlineAll, hflow]
          exact Bool.false_ne_true
        have hfits := (fits_outlineAll (n + 1) none body).closed
        refine ⟨⟨_, rfl, by simp [Outline.test]; omega⟩, fun b hb => ?_⟩
        rcases mem_again.1 ((List.mem_cons.1 hb).resolve_left (by simp)) with
          h | ⟨-, h⟩ | ⟨h, -⟩ | ⟨h, -⟩
        · exact absurd ((hfits.starts _ b h).resolve_right id).1 (Nat.lt_irrefl _)
        · obtain ⟨e, he, -⟩ := entry_eq_some.1 h
          cases hends.symm.trans he
        · obtain ⟨e, he, -⟩ := exit_eq_some.1 h
          cases hends.symm.trans he
        · simp only [Outline.test, List.length_singleton, Option.toList_some, List.map_cons,
            List.map_nil] at h
          omega
  | _ => cases hway

/-- Where there is no way through an instruction, the flow is cut, whatever is around it. -/
lemma not_reaches_of_not_hasWay {m n : Nat} {i : Instruction} {whole : Outline} {entry exit : Nat}
    (hway : i.hasWay = false) (hends : (outline m i).ends = some (entry, exit))
    (hin : Inside m (outline m i) n whole) : ¬ Reaches whole.pieces entry exit := by
  obtain ⟨⟨exit', hends', hlt⟩, hnone⟩ := stuck_of_not_hasWay m hway
  obtain ⟨rfl, rfl⟩ := Prod.mk.inj (Option.some.inj (hends'.symm.trans hends))
  have hfits := (fits_outline m i).ends _ hends
  refine not_reaches (fun b hb => ?_) (Nat.ne_of_lt hlt)
  rcases hin.apart _ b hb (Nat.lt_succ_self m) hfits.1.2 with h | h
  · exact hnone b h
  · obtain ⟨e, he, hexit⟩ := exit_eq_some.1 h
    rw [hends] at he
    obtain rfl := Option.some.inj he
    exact Nat.ne_of_gt hlt hexit

end Instruction
end Activity

/-! ### The drawing of a text -/

namespace Cell

/-- Connectors of a drawing lead from the first cell to the second one. -/
def Flows (cells : List Cell) : String → String → Prop :=
  Relation.ReflTransGen fun a b => ∃ c ∈ cells, c.source = some a ∧ c.target = some b

end Cell

namespace Activity

open Outline

/-- The label of the shape that draws a step. -/
def Step.label : Step → String
  | action label _ => label
  | note n => n.text
  | _ => ""

/-- The drawing of an outline behind some shapes has the ways of the outline. -/
lemma flows_iff {cells : List Cell} (head : List Piece) {ps : List Piece}
    (hhead : ∀ a b, .link a b ∉ head)
    (hcells : cells.map Cell.face = (head ++ ps).map Piece.face) (a b : Nat) :
    Cell.Flows cells (cellId a) (cellId b) ↔ Reaches ps a b := by
  have hlinks : ∀ x y, (∃ c ∈ cells, c.source = some x ∧ c.target = some y) ↔
      ∃ a b, .link a b ∈ ps ∧ x = cellId a ∧ y = cellId b := by
    intro x y
    constructor
    · rintro ⟨c, hc, hsource, htarget⟩
      have hface : c.face ∈ (head ++ ps).map Piece.face := hcells ▸ List.mem_map_of_mem hc
      obtain ⟨p, hp, hpface⟩ := List.mem_map.1 hface
      cases p with
      | shape value => exact nomatch (congrArg (·.2.1) hpface).trans hsource
      | link a b =>
        refine ⟨a, b, (List.mem_append.1 hp).resolve_left (hhead a b), ?_, ?_⟩
        · exact Option.some.inj (hsource.symm.trans (congrArg (·.2.1) hpface).symm)
        · exact Option.some.inj (htarget.symm.trans (congrArg (·.2.2) hpface).symm)
    · rintro ⟨a, b, hab, rfl, rfl⟩
      have hface : (Piece.link a b).face ∈ cells.map Cell.face :=
        hcells ▸ List.mem_map_of_mem (List.mem_append_right _ hab)
      obtain ⟨c, hc, hcface⟩ := List.mem_map.1 hface
      exact ⟨c, hc, congrArg (·.2.1) hcface, congrArg (·.2.2) hcface⟩
  constructor
  · intro h
    -- the cells on the way are numbered, and a number is told by its id
    have hway : ∀ y, Cell.Flows cells (cellId a) y → ∃ b, y = cellId b ∧ Reaches ps a b := by
      intro y hy
      induction hy with
      | refl => exact ⟨a, rfl, Relation.ReflTransGen.refl⟩
      | tail _ hstep ih =>
        obtain ⟨b, rfl, hb⟩ := ih
        obtain ⟨b', c, hlink, hb', rfl⟩ := (hlinks _ _).1 hstep
        obtain rfl := cellId_inj.1 hb'
        exact ⟨c, rfl, hb.tail hlink⟩
    obtain ⟨b', hb', hreach⟩ := hway _ h
    obtain rfl := cellId_inj.1 hb'
    exact hreach
  · intro h
    exact Relation.ReflTransGen.lift cellId
      (fun a b hab => (hlinks _ _).2 ⟨a, b, hab, rfl, rfl⟩) _ _ h

namespace Diagram

/-- The cells of a drawing have the numbered ids, in order. -/
lemma ids_draw (d : Diagram) (parent : String) :
    (d.draw parent).map Cell.id = Document.numberedIds "puml" (d.draw parent).length := by
  have hempty : Canvas.Sound { parent := parent } := ⟨rfl, fun _ hc => nomatch hc⟩
  exact ((adds_sketch d _).grows.sound hempty).ids

/-- A shape of the outline is the cell with its number. -/
lemma exists_shape {d : Diagram} {parent : String} {before behind : List Piece} {value : String}
    (h : (d.draw parent).map Cell.face = (before ++ .shape value :: behind).map Piece.face) :
    ∃ c ∈ d.draw parent, c.id = cellId (before.length + 1) ∧ c.vertex = true ∧ c.value = value := by
  have hids := d.ids_draw parent
  rw [List.map_append, List.map_cons] at h
  obtain ⟨cs, rest, hcells, hbefore, hrest⟩ := List.map_eq_append_iff.1 h
  obtain ⟨c, cs', rfl, hface, -⟩ := List.map_eq_cons_iff.1 hrest
  have hlength : cs.length = before.length := by
    simpa using congrArg List.length hbefore
  refine ⟨c, hcells ▸ List.mem_append_right _ List.mem_cons_self, ?_, ?_⟩
  · have hid := congrArg (·[before.length]?) hids
    rw [hcells] at hid
    simpa [Document.numberedIds, cellId, ← hlength] using hid
  · have hvalue : (if c.vertex then some c.value else none) = some value := congrArg (·.1) hface
    split at hvalue
    · next hvertex => exact ⟨hvertex, Option.some.inj hvalue⟩
    · cases hvalue

/-- Whether a line kills the flow can be computed. -/
lemma ne_kill_of_all {lines : List SourceLine}
    (h : (lines.all fun line =>
      match Line.read? line.text with
      | some (.step .kill) => false
      | _ => true) = true) :
    ∀ line ∈ lines, Line.read? line.text ≠ some (.step .kill) := by
  intro line hline hread
  have := List.all_eq_true.1 h line hline
  simp [hread] at this

lemma not_isKill_read {text : String}
    (hkill : ∀ line ∈ Source.lines text, Line.read? line.text ≠ some (.step .kill)) :
    ∀ i ∈ Instruction.walkAll (read text).instructions, i.isKill = false := by
  have hstable : Reader.Stable (fun r => ∀ m ∈ r.marks, ∀ s, m.step = some s → s ≠ .kill)
      (· ≠ .kill) := Reader.stable_steps fun _ => nofun
  have hsteps := hstable.read (by simp) (by simp) (Source.lines text) fun line hline s hs hs' =>
    hkill line hline (hs' ▸ hs)
  intro i hi
  have hmem : i.mark ∈ ((Source.lines text).foldl Reader.step {}).marks :=
    (Reader.marks_unwind_sublist _ _).subset (List.mem_map_of_mem hi)
  cases i with
  | step n s =>
    have := hsteps _ hmem s rfl
    cases s with
    | kill => exact absurd rfl this
    | _ => rfl
  | _ => rfl

/-- In a drawing without killed flows every instruction of the flow has a place, in the order of the
tree, and a step is drawn there.  If there is a way through an instruction and through all inside,
connectors lead from the way into it to the way out of it; if there is none through the instruction
itself, they do not.  So if there is a way through all instructions, connectors lead from the first
one to each of them. -/
theorem flows_read (text parent : String)
    (hkill : ∀ line ∈ Source.lines text, Line.read? line.text ≠ some (.step .kill)) :
    let d := read text
    let cells := d.draw parent
    let places := d.outline.places
    places.map Place.instruction = Instruction.flowOf (Instruction.walkAll d.instructions) ∧
      (∀ p ∈ places, ∀ n s, p.instruction = .step n s →
        ∃ c ∈ cells, c.id = cellId p.entry ∧ c.vertex = true ∧ c.value = s.label) ∧
      (∀ p ∈ places, (∀ i ∈ p.instruction.walk, i.hasWay = true) →
        Cell.Flows cells (cellId p.entry) (cellId p.exit)) ∧
      (∀ p ∈ places, p.instruction.hasWay = false →
        ¬ Cell.Flows cells (cellId p.entry) (cellId p.exit)) ∧
      ((∀ i ∈ Instruction.walkAll d.instructions, i.hasWay = true) →
        ∀ first ∈ places.head?, ∀ p ∈ places,
          Cell.Flows cells (cellId first.entry) (cellId p.entry)) := by
  intro d cells places
  have hnokill := not_isKill_read hkill
  have hcells : cells.map Cell.face = (d.head ++ d.outline.pieces).map Piece.face :=
    map_face_draw (named_read text) hnokill parent
  have hflows : ∀ a b, Cell.Flows cells (cellId a) (cellId b) ↔ Reaches d.outline.pieces a b :=
    flows_iff _ (by simp [head]) hcells
  have hsettled : ∀ p ∈ places, Instruction.Settled d.head.length d.outline p :=
    Instruction.settled_outlineAll _ none (fun _ h => by cases h) d.instructions
  have hplaces := Instruction.instructions_outlineAll d.head.length none d.instructions
  refine ⟨hplaces, ?_, ?_, ?_, ?_⟩
  · intro p hp n s hps
    obtain ⟨m, hends, hin⟩ := hsettled p hp
    obtain ⟨before, behind, hpieces, hm⟩ := hin.pieces
    rw [hps] at hends hpieces
    obtain ⟨rest, hrest, hentry⟩ : ∃ rest,
        (Instruction.outline m (.step n s)).pieces = .shape s.label :: rest ∧ p.entry = m + 1 := by
      cases s with
      | arrow | note | leave => cases hends
      | action | start | stop | finish | kill =>
        exact ⟨_, rfl, (congrArg Prod.fst (Option.some.inj hends)).symm⟩
    have hshape : cells.map Cell.face =
        ((d.head ++ before) ++ .shape s.label :: (rest ++ behind)).map Piece.face := by
      rw [hcells, hpieces, hrest, List.cons_append, List.append_assoc]
    have hlength : (d.head ++ before).length + 1 = p.entry := by
      rw [List.length_append, hm, hentry]
    exact hlength ▸ exists_shape hshape
  · intro p hp hway
    obtain ⟨m, hends, hin⟩ := hsettled p hp
    exact (hflows _ _).2
      (((Instruction.threads_outline m p.instruction hway).exit _ hends).mono hin.subset)
  · intro p hp hway
    obtain ⟨m, hends, hin⟩ := hsettled p hp
    exact fun h => Instruction.not_reaches_of_not_hasWay hway hends hin ((hflows _ _).1 h)
  · intro hway first hfirst p hp
    have hthreads := Instruction.threads_outlineAll d.head.length none d.instructions hway
    have hentry := Instruction.head_places_outlineAll d.head.length none d.instructions
    have hhead :
        (Instruction.outlineAll d.head.length none d.instructions).places.head? = some first :=
      hfirst
    rw [hhead] at hentry
    obtain ⟨e, he, hfirst⟩ := entry_eq_some.1 hentry.symm
    rw [← hfirst]
    exact (hflows _ _).2 (hthreads.places e he p hp)

/-- Both branches of a fork, and what follows it, are reached from the start. -/
theorem flows_read_fork :
    let text := "start\nfork\n:a;\nfork again\n:b;\nend fork\nstop"
    let d := read text
    (∀ line ∈ Source.lines text, Line.read? line.text ≠ some (.step .kill)) ∧
      d.outline.places.map (fun p => (p.entry, p.exit)) =
        [(1, 1), (2, 3), (4, 4), (7, 7), (11, 11)] ∧
      ∀ p ∈ d.outline.places, Cell.Flows (d.draw "1") (cellId 1) (cellId p.entry) := by
  intro text d
  have hkill : ∀ line ∈ Source.lines text, Line.read? line.text ≠ some (.step .kill) :=
    ne_kill_of_all (by decide +kernel)
  have hplaces : d.outline.places.map (fun p => (p.entry, p.exit)) =
      [(1, 1), (2, 3), (4, 4), (7, 7), (11, 11)] := by decide +kernel
  have hway : (Instruction.walkAll d.instructions).all Instruction.hasWay = true := by
    decide +kernel
  refine ⟨hkill, hplaces, fun p hp => ?_⟩
  obtain ⟨first, hfirst, hentry⟩ : ∃ first, d.outline.places.head? = some first ∧
      (first.entry, first.exit) = (1, 1) := by
    rw [← Option.map_eq_some_iff (f := fun p : Place => (p.entry, p.exit)), ← List.head?_map,
      hplaces]
    rfl
  have h := (flows_read text "1" hkill).2.2.2.2 (List.all_eq_true.1 hway) first hfirst p hp
  rwa [(Prod.mk.inj hentry).1] at h

/-- A switch whose only case is empty has no connector to the place where its cases meet: neither
this place nor what follows it is reached from the start. -/
theorem not_flows_read_switch :
    let text := "start\nswitch (a)\ncase (b)\nendswitch\nstop"
    let d := read text
    (∀ line ∈ Source.lines text, Line.read? line.text ≠ some (.step .kill)) ∧
      d.outline.places.map (fun p => (p.entry, p.exit)) = [(1, 1), (2, 3), (5, 5)] ∧
      ¬ Cell.Flows (d.draw "1") (cellId 2) (cellId 3) ∧
      ¬ Cell.Flows (d.draw "1") (cellId 1) (cellId 5) := by
  intro text d
  have hcells : (d.draw "1").map Cell.face = ([] ++ [.shape "", .shape "a", .shape "", .link 1 2,
      .shape "", .shape "", .link 3 5] : List Piece).map Piece.face := by decide +kernel
  have hflows := flows_iff [] nofun hcells
  have hreach : ∀ b, Reaches [.shape "", .shape "a", .shape "", .link 1 2, .shape "", .shape "",
      .link 3 5] 1 b → b = 1 ∨ b = 2 := by
    intro b h
    induction h with
    | refl => exact .inl rfl
    | tail _ hlink ih =>
      simp at hlink
      omega
  refine ⟨ne_kill_of_all (by decide +kernel), by decide +kernel, fun h => ?_, fun h => ?_⟩
  · have h := hreach _ ((reaches_link (by simp)).trans ((hflows 2 3).1 h))
    omega
  · have h := hreach _ ((hflows 1 5).1 h)
    omega

end Diagram
end Activity
end UmlDraw
