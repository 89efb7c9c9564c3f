/-
# Codes next to the others of their group

The codes to be laid out are taken in order.  A code that is not there yet brings all members of its
group with it, so a group stands where the first of its codes would stand.  The codes before a place
are then those that were before it, together with the others of their groups.

The main statements are

* `perm_gather`: whatever the groups are, no code is lost and none comes twice;
* `standsBehind_gather`: where the group of a code stands;
* `gathered_gather`: what becomes of codes when their groups have no code in common.
-/
import Mathlib.Data.List.Induction
import Mathlib.Data.List.Pairwise
import Mathlib.Data.List.Perm.Basic
import UmlDraw.Proofs.Layout.Grouping

namespace UmlDraw

variable {groups : List (List String)} {codes before after result members : List String}
  {g : List String} {c x : String}

/-! ### No code is lost, and none comes twice -/

lemma nodup_foldl_group (h : result.Nodup) :
    (members.foldl (fun result member =>
      if codes.contains member && !result.contains member then result ++ [member] else result)
      result).Nodup := by
  induction members generalizing result with
  | nil => exact h
  | cons m rest ih =>
    rw [List.foldl_cons]
    refine ih ?_
    split
    · next hm =>
      have hnew : m ∉ result := by simpa using (Bool.and_eq_true_iff.1 hm).2
      exact h.append (List.nodup_singleton m) (by simpa using hnew)
    · exact h

lemma nodup_foldl_gatherStep {todo : List String} (h : result.Nodup) :
    (todo.foldl (gatherStep groups codes) result).Nodup := by
  induction todo generalizing result with
  | nil => exact h
  | cons c rest ih =>
    refine ih ?_
    unfold gatherStep
    split
    · exact h
    · exact nodup_foldl_group h

/-- Groups change the order of codes only, even if they have codes in common. -/
lemma perm_gather (groups : List (List String)) (hcodes : codes.Nodup) :
    (gather groups codes).Perm codes :=
  (List.perm_ext_iff_of_nodup (nodup_foldl_gatherStep List.nodup_nil) hcodes).2 fun _ => mem_gather

/-! ### The codes that a code brings with it -/

/-- The codes of a group that are among the given ones, each of them once and in the order of the
group. -/
def membersAmong (codes group : List String) : List String :=
  (group.filter codes.contains).eraseDups

lemma foldl_group_eq (members result : List String) :
    members.foldl (fun result member =>
        if codes.contains member && !result.contains member then result ++ [member] else result)
        result =
      result ++ ((members.filter codes.contains).filter fun m => !result.contains m).eraseDups := by
  induction members generalizing result with
  | nil => simp
  | cons m rest ih =>
    rw [List.foldl_cons, ih]
    by_cases hm : m ∈ codes
    · rw [List.filter_cons_of_pos (by simpa using hm)]
      by_cases hnew : m ∈ result
      · rw [if_neg (by simp [hnew]), List.filter_cons_of_neg (by simp [hnew])]
      · have hfilter : ((rest.filter codes.contains).filter fun a => !(result ++ [m]).contains a) =
            ((rest.filter codes.contains).filter fun a => !result.contains a).filter
              fun a => !a == m := by
          rw [List.filter_filter (p := fun a => !a == m)]
          refine List.filter_congr fun a _ => ?_
          rw [List.contains_eq_mem, List.contains_eq_mem]
          grind
        rw [if_pos (by simp [hm, hnew]), List.filter_cons_of_pos (by simp [hnew]),
          List.eraseDups_cons, hfilter, List.append_assoc, List.singleton_append]
    · rw [if_neg (by simp [hm]), List.filter_cons_of_neg (by simpa using hm)]

/-- A code of whose group nothing is there yet brings the group with it. -/
lemma gatherStep_eq (hc : c ∉ result) (h : ∀ x ∈ groupOf groups c, x ∈ codes → x ∉ result) :
    gatherStep groups codes result c = result ++ membersAmong codes (groupOf groups c) := by
  have hfilter : ((groupOf groups c).filter codes.contains).filter (fun m => !result.contains m) =
      (groupOf groups c).filter codes.contains := by
    refine List.filter_eq_self.2 fun x hx => ?_
    obtain ⟨hgroup, hcodes⟩ := List.mem_filter.1 hx
    simpa using h x hgroup (by simpa using hcodes)
  rw [gatherStep, if_neg (by simpa using hc), foldl_group_eq, hfilter, membersAmong]

lemma prefix_gatherStep (groups : List (List String)) (codes result : List String) (c : String) :
    result <+: gatherStep groups codes result c := by
  unfold gatherStep
  split
  · exact List.prefix_rfl
  · rw [foldl_group_eq]
    exact List.prefix_append _ _

lemma prefix_foldl_gatherStep (todo result : List String) :
    result <+: todo.foldl (gatherStep groups codes) result := by
  induction todo generalizing result with
  | nil => exact List.prefix_rfl
  | cons c rest ih => exact (prefix_gatherStep groups codes result c).trans (ih _)

/-- What stands there after a code had its turn is the beginning of the result. -/
lemma prefix_gather (groups : List (List String)) (hcodes : codes = before ++ c :: after) :
    gatherStep groups codes (before.foldl (gatherStep groups codes) []) c <+:
      gather groups codes := by
  have hgather : gather groups codes = after.foldl (gatherStep groups codes)
      (gatherStep groups codes (before.foldl (gatherStep groups codes) []) c) :=
    calc gather groups codes
        = (before ++ c :: after).foldl (gatherStep groups codes) [] := by rw [← hcodes]; rfl
      _ = _ := by rw [List.foldl_append, List.foldl_cons]
  exact hgather ▸ prefix_foldl_gatherStep after _

/-! ### Groups without a common code -/

lemma groupOf_eq (hgroups : groups.Pairwise List.Disjoint) (hg : g ∈ groups) (hc : c ∈ g) :
    groupOf groups c = g := by
  unfold groupOf
  cases hfind : groups.reverse.find? fun g => g.contains c with
  | none => exact absurd (by simpa using hc) (List.find?_eq_none.1 hfind g (List.mem_reverse.2 hg))
  | some g' =>
    have hg' : g' ∈ groups := List.mem_reverse.1 (List.mem_of_find?_eq_some hfind)
    have hc' : c ∈ g' := by simpa using List.find?_some hfind
    by_contra hne
    have : Std.Symm (List.Disjoint (α := String)) := ⟨fun _ _ h => List.disjoint_symm h⟩
    exact hgroups.forall hg' hg hne hc' hc

lemma groupOf_eq_singleton (h : ∀ g ∈ groups, c ∉ g) : groupOf groups c = [c] := by
  unfold groupOf
  rw [List.find?_eq_none.2 fun g hg => by simpa using h g (List.mem_reverse.1 hg), Option.getD_none]

/-- A group is the code alone, or it is one of the given groups. -/
lemma mem_groupOf_iff (hgroups : groups.Pairwise List.Disjoint) :
    x ∈ groupOf groups c ↔ x = c ∨ ∃ g ∈ groups, c ∈ g ∧ x ∈ g := by
  by_cases h : ∃ g ∈ groups, c ∈ g
  · obtain ⟨g, hg, hc⟩ := h
    rw [groupOf_eq hgroups hg hc]
    refine ⟨fun hx => .inr ⟨g, hg, hc, hx⟩, ?_⟩
    rintro (rfl | ⟨g', hg', hc', hx⟩)
    · exact hc
    · rwa [← groupOf_eq hgroups hg hc, groupOf_eq hgroups hg' hc']
  · have hnone : ∀ g ∈ groups, c ∉ g := fun g hg hc => h ⟨g, hg, hc⟩
    rw [groupOf_eq_singleton hnone, List.mem_singleton]
    exact ⟨.inl, fun hx => hx.resolve_right fun ⟨g, hg, hc, _⟩ => hnone g hg hc⟩

lemma groupOf_congr (hgroups : groups.Pairwise List.Disjoint) (h : x ∈ groupOf groups c) :
    groupOf groups x = groupOf groups c := by
  rcases (mem_groupOf_iff hgroups).1 h with rfl | ⟨g, hg, hc, hx⟩
  · rfl
  · rw [groupOf_eq hgroups hg hx, groupOf_eq hgroups hg hc]

/-- Some codes have brought all codes of their groups with them. -/
lemma mem_foldl_gatherStep_iff (hgroups : groups.Pairwise List.Disjoint) :
    x ∈ before.foldl (gatherStep groups codes) [] ↔
      x ∈ codes ∧ ∃ b ∈ before, x ∈ groupOf groups b := by
  induction before using List.reverseRecOn generalizing x with
  | nil => simp
  | append_singleton before c ih =>
    rw [List.foldl_append, List.foldl_cons, List.foldl_nil, mem_gatherStep, ih, ih]
    constructor
    · rintro (⟨hx, b, hb, hgroup⟩ | ⟨-, hgroup, hx⟩)
      · exact ⟨hx, b, List.mem_append_left _ hb, hgroup⟩
      · exact ⟨hx, c, List.mem_append_right _ (List.mem_singleton_self c), hgroup⟩
    · rintro ⟨hx, b, hb, hgroup⟩
      rcases List.mem_append.1 hb with hb | hb
      · exact .inl ⟨hx, b, hb, hgroup⟩
      · obtain rfl := List.mem_singleton.1 hb
        by_cases hc : b ∈ codes ∧ ∃ b' ∈ before, b ∈ groupOf groups b'
        · -- the code came with an earlier one of its group, and so did the others
          obtain ⟨-, b', hb', hsame⟩ := hc
          exact .inl ⟨hx, b', hb', groupOf_congr hgroups hsame ▸ hgroup⟩
        · exact .inr ⟨hc, hgroup, hx⟩

/-! ### Where a group stands -/

/-- Some codes stand next to each other in the result, behind those of the given codes that were
before their place and the others of the groups of these. -/
def StandsBehind (groups : List (List String)) (codes before block result : List String) : Prop :=
  ∃ left right, result = left ++ block ++ right ∧
    ∀ x, x ∈ left ↔ x ∈ codes ∧ ∃ b ∈ before, x = b ∨ ∃ g ∈ groups, b ∈ g ∧ x ∈ g

/-- The group of a code stands at the place of the first of its codes. -/
lemma standsBehind_gather (hgroups : groups.Pairwise List.Disjoint)
    (hcodes : codes = before ++ c :: after) (hfirst : ∀ b ∈ before, b ∉ groupOf groups c) :
    StandsBehind groups codes before (membersAmong codes (groupOf groups c))
      (gather groups codes) := by
  have hleft (x : String) : x ∈ before.foldl (gatherStep groups codes) [] ↔
      x ∈ codes ∧ ∃ b ∈ before, x = b ∨ ∃ g ∈ groups, b ∈ g ∧ x ∈ g := by
    simp only [mem_foldl_gatherStep_iff hgroups, mem_groupOf_iff hgroups]
  -- nothing of the group is there yet
  have hnew (x : String) (hx : x ∈ groupOf groups c) :
      x ∉ before.foldl (gatherStep groups codes) [] := by
    intro hmem
    obtain ⟨-, b, hb, hsame⟩ := (mem_foldl_gatherStep_iff hgroups).1 hmem
    refine hfirst b hb ?_
    rw [← groupOf_congr hgroups hx, groupOf_congr hgroups hsame]
    exact mem_groupOf groups b
  obtain ⟨right, hright⟩ := prefix_gather groups hcodes
  rw [gatherStep_eq (hnew c (mem_groupOf groups c)) fun x hx _ => hnew x hx] at hright
  exact ⟨_, right, hright.symm, hleft⟩

/-- What becomes of codes that are gathered by their groups. -/
structure Gathered (groups : List (List String)) (codes result : List String) : Prop where
  /-- Every code stands in the result once. -/
  perm : result.Perm codes
  /-- A group stands where the first of its codes stood. -/
  group : ∀ g ∈ groups, ∀ before c after, codes = before ++ c :: after → c ∈ g →
    (∀ b ∈ before, b ∉ g) → StandsBehind groups codes before (membersAmong codes g) result
  /-- A code without a group keeps its place. -/
  single : ∀ before c after, codes = before ++ c :: after → (∀ g ∈ groups, c ∉ g) →
    StandsBehind groups codes before [c] result

/-- Codes of which none is given twice are gathered by groups that have no code in common: the
members of each group stand next to each other, in the order of the group and at the place of the
first of them, and no code is lost or comes twice. -/
theorem gathered_gather (hcodes : codes.Nodup) (hgroups : groups.Pairwise List.Disjoint) :
    Gathered groups codes (gather groups codes) where
  perm := perm_gather groups hcodes
  group := by
    intro g hg before c after hsplit hc hfirst
    have hgroup := groupOf_eq hgroups hg hc
    have hstands := standsBehind_gather hgroups hsplit (hgroup ▸ hfirst)
    rwa [hgroup] at hstands
  single := by
    intro before c after hsplit hnone
    have hgroup := groupOf_eq_singleton hnone
    have hmem : c ∈ codes := hsplit ▸ List.mem_append_right _ (List.mem_cons_self ..)
    have hfirst : ∀ b ∈ before, b ∉ groupOf groups c := by
      intro b hb hsame
      rw [hgroup, List.mem_singleton] at hsame
      rw [hsplit] at hcodes
      exact (List.nodup_append.1 hcodes).2.2 b hb c (List.mem_cons_self ..) hsame
    have hstands := standsBehind_gather hgroups hsplit hfirst
    have halone : membersAmong codes [c] = [c] := by
      rw [membersAmong, List.filter_cons_of_pos (by simpa using hmem), List.filter_nil]
      rfl
    rwa [hgroup, halone] at hstands

/-- Two groups whose codes are mixed with each other; the first one has them in another order and
names a code that is not there. -/
theorem gathered_gather_mixed :
    ["A", "B", "C", "D", "E"].Nodup ∧ [["D", "X", "B"], ["C", "E"]].Pairwise List.Disjoint ∧
    gather [["D", "X", "B"], ["C", "E"]] ["A", "B", "C", "D", "E"] = ["A", "D", "B", "C", "E"] ∧
    Gathered [["D", "X", "B"], ["C", "E"]] ["A", "B", "C", "D", "E"]
      (gather [["D", "X", "B"], ["C", "E"]] ["A", "B", "C", "D", "E"]) := by
  have hcodes : ["A", "B", "C", "D", "E"].Nodup := by decide
  have hgroups : [["D", "X", "B"], ["C", "E"]].Pairwise List.Disjoint := by
    simp [List.Disjoint]
  exact ⟨hcodes, hgroups, by decide, gathered_gather hcodes hgroups⟩

end UmlDraw
