/-
# The elements of a layout of a state diagram

A layout has the elements that can be reached from the top, and these are the ones that lie in no
ring of composite states.

The main statements are

* `Placement.forall_rooted_iff`: all steps to the parent end if and only if no placement closes a
  ring;
* `Diagram.reached_iff_rooted`: from the top one gets to exactly the elements from which the steps
  end;
* `Diagram.Ladder.length_lt`: such an element has fewer elements around it than there are in all;
* `Diagram.mem_map_element_shapes_iff`: the elements in a layout.
-/
import Mathlib.Data.List.Induction
import Mathlib.Data.List.Perm.Subperm
import Mathlib.Logic.Relation
import UmlDraw.Proofs.State.Reader
import UmlDraw.State.Layout

namespace UmlDraw

/-! ## Rings of composite states

An element lies in its parent, which lies in its own parent, and so on.  As long as these steps end
at an element without a parent, they lead out of every composite state.  They go round for ever if a
composite state was placed in an element that lies in it.  This happens only to a state that stands
at the top when it is placed, since a state keeps the parent that it has. -/

namespace State

section Parents

variable {parent : String → Option String} {c p q : String}

/-- From an element, the steps to the parent end. -/
inductive Rooted (parent : String → Option String) : String → Prop
  | top {c : String} (h : parent c = none) : Rooted parent c
  | inside {c p : String} (h : parent c = some p) (hp : Rooted parent p) : Rooted parent c

/-- An element is another one or lies in it. -/
def Inside (parent : String → Option String) : String → String → Prop :=
  Relation.ReflTransGen fun c p => parent c = some p

/-- The steps do not end on a ring. -/
lemma Rooted.not_inside (h : Rooted parent c) (hp : parent c = some p) : ¬ Inside parent p c := by
  induction h generalizing p with
  | top hc => rw [hc] at hp; exact nomatch hp
  | @inside c p₀ hc _ ih =>
    obtain rfl : p₀ = p := Option.some.inj (hc.symm.trans hp)
    intro hring
    -- one step further, the ring goes through the parent
    rcases Relation.ReflTransGen.cases_head hring with rfl | ⟨q, hq, hqc⟩
    · exact ih hc .refl
    · exact ih hq (hqc.tail hc)

/-- The parents after an element at the top got one. -/
lemma forall_rooted_update_iff (hc : parent c = none) :
    (∀ k, Rooted (fun k => if k = c then some p else parent k) k) ↔
      (∀ k, Rooted parent k) ∧ ¬ Inside parent p c := by
  have hold : ∀ {k q}, parent k = some q → (if k = c then some p else parent k) = some q := by
    intro k q hk
    rw [if_neg, hk]
    rintro rfl
    rw [hc] at hk
    exact nomatch hk
  constructor
  · intro hnew
    refine ⟨fun k => ?_, fun hpc => ?_⟩
    · induction hnew k with
      | @top k hk =>
        split at hk
        · exact nomatch hk
        · exact .top hk
      | @inside k q hk _ ih =>
        split at hk
        · next hkc => exact .top (hkc ▸ hc)
        · exact .inside hk ih
    · have hcp : (if c = c then some p else parent c) = some p := if_pos rfl
      exact (hnew c).not_inside hcp (Relation.ReflTransGen.mono (fun _ _ hk => hold hk) _ _ hpc)
  · rintro ⟨hrooted, hpc⟩
    -- first the elements outside of which the one that was placed stands
    have hfree : ∀ k, ¬ Inside parent k c →
        Rooted (fun k => if k = c then some p else parent k) k := by
      intro k hk
      induction hrooted k with
      | @top k htop =>
        have hkc : k ≠ c := by
          rintro rfl
          exact hk .refl
        exact .top ((if_neg hkc).trans htop)
      | @inside k q hq _ ih => exact .inside (hold hq) (ih fun h => hk (.head hq h))
    intro k
    induction hrooted k with
    | @top k htop =>
      by_cases hkc : k = c
      · exact .inside (if_pos hkc) (hfree p hpc)
      · exact .top ((if_neg hkc).trans htop)
    | @inside k q hq _ ih => exact .inside (hold hq) ih

end Parents

namespace Placement

variable {qs : List Placement}

/-- No placement puts an element without a parent into an element that lies in it. -/
def RingFree (qs : List Placement) : Prop :=
  ∀ before q after, qs = before ++ q :: after →
    holderOf before q.code = none → ¬ Inside (holderOf before) q.holder q.code

lemma ringFree_concat_iff {q : Placement} :
    RingFree (qs ++ [q]) ↔
      RingFree qs ∧ (holderOf qs q.code = none → ¬ Inside (holderOf qs) q.holder q.code) := by
  constructor
  · intro h
    refine ⟨fun before q' after hqs => ?_, h qs q [] rfl⟩
    exact h before q' (after ++ [q]) (by rw [hqs, List.append_assoc, List.cons_append])
  · rintro ⟨hqs, hq⟩ before q' after heq
    rcases List.eq_nil_or_concat after with rfl | ⟨after, q'', rfl⟩
    · obtain ⟨rfl, hlast⟩ := List.append_inj' heq rfl
      obtain rfl : q = q' := by simpa using hlast
      exact hq
    · rw [List.concat_eq_append, ← List.cons_append, ← List.append_assoc] at heq
      exact hqs before q' after (List.append_inj' heq rfl).1

lemma holderOf_concat (q : Placement) :
    holderOf (qs ++ [q]) = fun k => if k = q.code then (holderOf qs k).or (some q.holder)
      else holderOf qs k := by
  funext k
  rw [holderOf_append, holderOf_singleton]
  split
  · rfl
  · exact Option.or_none

/-- All steps to parents end if and only if no placement closes a ring. -/
theorem forall_rooted_iff : (∀ c, Rooted (holderOf qs) c) ↔ RingFree qs := by
  induction qs using List.reverseRecOn with
  | nil =>
    refine iff_of_true (fun c => .top rfl) ?_
    intro before q after h
    exact absurd h.symm (by simp)
  | append_singleton qs q ih =>
    rw [ringFree_concat_iff, ← ih, holderOf_concat]
    cases hq : holderOf qs q.code with
    | none =>
      have hupdate : (fun k => if k = q.code then (holderOf qs k).or (some q.holder)
          else holderOf qs k) = fun k => if k = q.code then some q.holder else holderOf qs k := by
        funext k
        split
        · next hk => rw [hk, hq, Option.none_or]
        · rfl
      rw [hupdate, forall_rooted_update_iff hq]
      simp
    | some p =>
      -- the element has a parent already
      have hsame : (fun k => if k = q.code then (holderOf qs k).or (some q.holder)
          else holderOf qs k) = holderOf qs := by
        funext k
        split
        · next hk => rw [hk, hq, Option.some_or]
        · rfl
      rw [hsame]
      simp

end Placement
namespace Diagram

variable {d : Diagram} {c p : String} {e e' : Element}

/-- The elements that are found from the top by way of the members of composite states. -/
inductive Reached (d : Diagram) : String → Prop
  | top {c : String} (h : c ∈ d.roots) : Reached d c
  | inside {c p : String} (hp : Reached d p) (h : c ∈ d.membersOf p) : Reached d c

lemma mem_roots_iff : c ∈ d.roots ↔ c ∈ d.elements.keys ∧ d.parent? c = none := by
  simp only [roots, List.mem_map, List.mem_filter, Prod.exists, exists_and_right,
    exists_eq_right, Option.isNone_iff_eq_none]
  constructor
  · rintro ⟨e, he, hparent⟩
    have hget := Keyed.get?_eq_some_iff.2 he
    exact ⟨Keyed.mem_keys_iff.2 ⟨e, hget⟩, (parent?_of_get? hget).trans hparent⟩
  · rintro ⟨hkey, hparent⟩
    obtain ⟨e, he⟩ := Keyed.mem_keys_iff.1 hkey
    exact ⟨e, Keyed.get?_eq_some_iff.1 he, (parent?_of_get? he).symm.trans hparent⟩

lemma mem_keys_of_mem_membersOf (h : c ∈ d.membersOf p) : p ∈ d.elements.keys := by
  rw [Keyed.mem_keys_iff, ← Option.isSome_iff_exists, Option.isSome_iff_ne_none]
  intro hnone
  rw [membersOf, hnone] at h
  cases h

/-- From the top one gets to exactly the elements from which the steps to the parent end. -/
theorem reached_iff_rooted (hd : d.Consistent) (hc : c ∈ d.elements.keys) :
    d.Reached c ↔ Rooted d.parent? c := by
  constructor
  · intro h
    clear hc
    induction h with
    | top h => exact .top (mem_roots_iff.1 h).2
    | inside _ hmem ih => exact .inside ((hd.mem_iff _ _).1 hmem) ih
  · intro h
    induction h with
    | top htop => exact .top (mem_roots_iff.2 ⟨hc, htop⟩)
    | @inside c p hp _ ih =>
      have hmem := (hd.mem_iff p c).2 hp
      exact .inside (ih (mem_keys_of_mem_membersOf hmem)) hmem

/-! ### The depth of an element -/

/-- The parents of an element, from the nearest one to the outermost one. -/
inductive Ladder (parent : String → Option String) : String → List String → Prop
  | top {c : String} (h : parent c = none) : Ladder parent c []
  | step {c p : String} {ps : List String} (h : parent c = some p) (hp : Ladder parent p ps) :
      Ladder parent c (p :: ps)

lemma exists_ladder {parent : String → Option String} (h : Rooted parent c) :
    ∃ ps, Ladder parent c ps := by
  induction h with
  | top h => exact ⟨[], .top h⟩
  | inside h _ ih =>
    obtain ⟨ps, hps⟩ := ih
    exact ⟨_, .step h hps⟩

lemma Ladder.rooted {parent : String → Option String} {ps : List String} (h : Ladder parent c ps) :
    Rooted parent c := by
  induction h with
  | top h => exact .top h
  | step h _ ih => exact .inside h ih

lemma Ladder.inside {parent : String → Option String} {ps : List String} (h : Ladder parent c ps)
    (hp : p ∈ ps) : Inside parent c p := by
  induction h with
  | top h => exact nomatch hp
  | step hc _ ih =>
    rcases List.mem_cons.1 hp with rfl | hp
    · exact .single hc
    · exact .head hc (ih hp)

/-- No element is met twice on the way out. -/
lemma Ladder.nodup {parent : String → Option String} {ps : List String} (h : Ladder parent c ps) :
    (c :: ps).Nodup := by
  induction h with
  | top h => exact List.nodup_singleton _
  | @step c p ps hc hp ih =>
    refine List.nodup_cons.2 ⟨fun hmem => ?_, ih⟩
    have hrooted : Rooted parent c := .inside hc hp.rooted
    rcases List.mem_cons.1 hmem with rfl | hmem
    · exact hrooted.not_inside hc .refl
    · exact hrooted.not_inside hc (hp.inside hmem)

/-- All elements on the way out are in the table, so there are fewer parents than elements. -/
lemma Ladder.length_lt (hd : d.Consistent) {ps : List String} (h : Ladder d.parent? c ps)
    (hc : c ∈ d.elements.keys) : ps.length < d.elements.entries.length := by
  have hsub : ∀ {c ps}, Ladder d.parent? c ps → c ∈ d.elements.keys →
      c :: ps ⊆ d.elements.keys := by
    intro c ps h hc
    induction h with
    | top h => exact List.cons_subset.2 ⟨hc, List.nil_subset _⟩
    | step hp _ ih =>
      have hmem := (hd.mem_iff _ _).2 hp
      exact List.cons_subset.2 ⟨hc, ih (mem_keys_of_mem_membersOf hmem)⟩
  have hlength := (h.nodup.subperm (hsub h hc)).length_le
  rw [Keyed.keys, List.length_map] at hlength
  exact hlength

end Diagram

/-! ## The elements of a layout

A layout measures and places the elements at the top, then those in them, and so on.  The number of
elements bounds how deep it goes, and that is deep enough: what can be reached from the top at all
is reached on a way without repetitions. -/


namespace Part

mutual

/-- The element of a part and those in it. -/
def elements : Part → List Element
  | node e _ _ _ parts => e :: elementsOf parts

/-- The elements of parts and those in them. -/
def elementsOf : List Part → List Element
  | [] => []
  | p :: rest => elements p ++ elementsOf rest

end

lemma elementsOf_eq_flatMap (parts : List Part) : elementsOf parts = parts.flatMap elements := by
  induction parts with
  | nil => rfl
  | cons p rest ih => rw [elementsOf, ih, List.flatMap_cons]

mutual

lemma map_element_place (around : Arrangement) (x y : Rat) :
    (p : Part) → (place around x y p).map Placed.element = elements p
  | node e w h inside parts => by
    rw [place, elements, List.map_cons, map_element_placeAll]

lemma map_element_placeAll (around : Arrangement) (x y : Rat) :
    (parts : List Part) → (placeAll around x y parts).map Placed.element = elementsOf parts
  | [] => rfl
  | p :: rest => by
    rw [placeAll, elementsOf, List.map_append, map_element_place, map_element_placeAll]

end

end Part

/-- Nothing is in an element that is not composite. -/
lemma Element.members_eq_nil {e : Element} (h : e.isComposite = false) :
    e.contents.members = [] := by
  unfold Element.isComposite at h
  cases hcontents : e.contents with
  | direct members transitions =>
    rw [hcontents] at h
    simpa [Contents.isComposite, Contents.members] using h
  | concurrent first middle last =>
    rw [hcontents] at h
    cases h

namespace Diagram

variable {d : Diagram} {c : String} {e : Element}

/-- The elements with the given codes and those in them, down to a given depth. -/
def elementsIn (d : Diagram) : Nat → List String → List Element
  | 0, _ => []
  | n + 1, codes =>
    (codes.filterMap d.elements.get?).flatMap fun e => e :: elementsIn d n e.contents.members

lemma elementsIn_nil (n : Nat) : d.elementsIn n [] = [] := by
  cases n <;> rfl

lemma elementsIn_append (n : Nat) (codes codes' : List String) :
    d.elementsIn n (codes ++ codes') = d.elementsIn n codes ++ d.elementsIn n codes' := by
  cases n with
  | zero => rfl
  | succ n => simp only [elementsIn, List.filterMap_append, List.flatMap_append]

lemma elementsIn_flatMap (n : Nat) (regions : List Region) :
    d.elementsIn n (regions.flatMap Region.members) =
      regions.flatMap fun r => d.elementsIn n r.members := by
  induction regions with
  | nil => exact elementsIn_nil n
  | cons r rest ih => rw [List.flatMap_cons, elementsIn_append, ih, List.flatMap_cons]

lemma elementsOf_measure (d : Diagram) (n : Nat) (codes : List String) :
    Part.elementsOf (d.measure n codes) = d.elementsIn n codes := by
  induction n generalizing codes with
  | zero => rfl
  | succ n ih =>
    rw [measure, elementsIn, Part.elementsOf_eq_flatMap, List.flatMap_map]
    refine List.flatMap_congr fun e _ => ?_
    split
    · cases hcontents : e.contents with
      | direct members transitions =>
        simp only [enclose, Part.elements, ih, Contents.members]
      | concurrent first middle last =>
        simp only [enclose, Part.elements, Contents.members, elementsIn_flatMap]
        rw [Part.elementsOf_eq_flatMap, List.flatten_eq_flatMap, List.flatMap_assoc,
          List.flatMap_map]
        simp only [id_eq, ← Part.elementsOf_eq_flatMap, ih]
    · next hleaf =>
      rw [Element.members_eq_nil (Bool.eq_false_iff.2 hleaf), elementsIn_nil]
      rfl

lemma map_element_shapes (d : Diagram) (x y : Rat) :
    (d.layout x y).shapes.map Placed.element =
      d.elementsIn (d.elements.entries.length + 1) d.roots := by
  rw [layout, Part.map_element_placeAll, elementsOf_measure]

/-! ### How deep the elements stand -/

lemma mem_elementsIn_succ_iff {n : Nat} {codes : List String} :
    e ∈ d.elementsIn (n + 1) codes ↔ ∃ k ∈ codes, ∃ p, d.elements.get? k = some p ∧
      (e = p ∨ e ∈ d.elementsIn n p.contents.members) := by
  simp only [elementsIn, List.mem_flatMap, List.mem_filterMap, List.mem_cons]
  constructor
  · rintro ⟨p, ⟨k, hk, hp⟩, he⟩
    exact ⟨k, hk, p, hp, he⟩
  · rintro ⟨k, hk, p, hp, he⟩
    exact ⟨p, ⟨k, hk, hp⟩, he⟩

/-- What is in an element of the layout stands one step deeper. -/
lemma mem_elementsIn_of_parent (hd : d.Consistent) {n : Nat} {codes : List String} {p : Element}
    (hp : p ∈ d.elementsIn n codes) (he : d.elements.get? c = some e)
    (hparent : d.parent? c = some p.code) : e ∈ d.elementsIn (n + 1) codes := by
  induction n generalizing codes with
  | zero => exact nomatch hp
  | succ n ih =>
    obtain ⟨k, hk, q, hq, rfl | hp⟩ := mem_elementsIn_succ_iff.1 hp
    · -- the element is a member of one at the top of the list
      have hmem := (hd.mem_iff _ _).2 hparent
      rw [hd.code k p hq, membersOf_of_get? hq] at hmem
      have hin : e ∈ d.elementsIn (n + 1) p.contents.members :=
        mem_elementsIn_succ_iff.2 ⟨c, hmem, e, he, .inl rfl⟩
      exact mem_elementsIn_succ_iff.2 ⟨k, hk, p, hq, .inr hin⟩
    · exact mem_elementsIn_succ_iff.2 ⟨k, hk, q, hq, .inr (ih hp)⟩

lemma mem_elementsIn_of_ladder (hd : d.Consistent) {n : Nat} {ps : List String}
    (hps : Ladder d.parent? c ps) (hn : ps.length < n) (he : d.elements.get? c = some e) :
    e ∈ d.elementsIn n d.roots := by
  induction hps generalizing n e with
  | @top c htop =>
    obtain ⟨n, rfl⟩ := Nat.exists_eq_succ_of_ne_zero (Nat.ne_of_gt hn)
    have hroot : c ∈ d.roots := mem_roots_iff.2 ⟨Keyed.mem_keys_iff.2 ⟨e, he⟩, htop⟩
    exact mem_elementsIn_succ_iff.2 ⟨c, hroot, e, he, .inl rfl⟩
  | @step c p ps hp _ ih =>
    have hkey := mem_keys_of_mem_membersOf ((hd.mem_iff p c).2 hp)
    obtain ⟨q, hq⟩ := Keyed.mem_keys_iff.1 hkey
    rw [List.length_cons] at hn
    obtain ⟨n, rfl⟩ := Nat.exists_eq_succ_of_ne_zero (Nat.ne_of_gt (Nat.zero_lt_of_lt hn))
    have hq' := ih (Nat.lt_of_succ_lt_succ hn) hq
    exact mem_elementsIn_of_parent hd hq' he (by rw [hd.code p q hq]; exact hp)

/-- The elements of a list with its inside are known by their codes, and they can be reached if
those of the list can. -/
lemma reached_of_mem_elementsIn (hd : d.Consistent) {n : Nat} {codes : List String}
    (hcodes : ∀ k ∈ codes, d.Reached k) (he : e ∈ d.elementsIn n codes) :
    d.elements.get? e.code = some e ∧ d.Reached e.code := by
  induction n generalizing codes with
  | zero => exact nomatch he
  | succ n ih =>
    obtain ⟨k, hk, p, hp, rfl | he⟩ := mem_elementsIn_succ_iff.1 he
    · rw [hd.code k e hp]
      exact ⟨hp, hcodes k hk⟩
    · refine ih (fun c hc => .inside (hcodes k hk) ?_) he
      rwa [membersOf_of_get? hp]

/-- The elements in a layout are exactly those that can be reached from the top. -/
theorem mem_map_element_shapes_iff (hd : d.Consistent) (x y : Rat) :
    e ∈ (d.layout x y).shapes.map Placed.element ↔
      d.elements.get? e.code = some e ∧ Rooted d.parent? e.code := by
  rw [map_element_shapes]
  constructor
  · intro he
    obtain ⟨hget, hreached⟩ := reached_of_mem_elementsIn hd (fun k hk => .top hk) he
    have hkey := Keyed.mem_keys_iff.2 ⟨e, hget⟩
    exact ⟨hget, (reached_iff_rooted hd hkey).1 hreached⟩
  · rintro ⟨hget, hrooted⟩
    obtain ⟨ps, hps⟩ := exists_ladder hrooted
    have hlength := hps.length_lt hd (Keyed.mem_keys_iff.2 ⟨e, hget⟩)
    exact mem_elementsIn_of_ladder hd hps (Nat.lt_succ_of_lt hlength) hget

end Diagram
end State
end UmlDraw
