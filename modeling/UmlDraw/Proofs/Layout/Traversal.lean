/-
# The traversal of layers

A link is kept if no earlier link joins the same two nodes.  The traversal visits a node when all
kept links into it were followed, and following a link pushes its target behind its source.

The main statements are

* `mem_keptLinks_iff`: which links are kept;
* `Traversal.Orderly.next`: what one visit preserves, and `Traversal.Orderly.run`: so does the whole
  traversal, which leaves no node waiting;
* `Traversal.orderly_finish`: the traversal that starts at the nodes without kept links to them.
-/
import Mathlib.Data.List.Induction
import Mathlib.Data.List.Nodup
import Mathlib.Order.MinMax
import Mathlib.Tactic.Lemma
import Mathlib.Tactic.Tauto
import UmlDraw.Layout.Layering
import UmlDraw.Proofs.Data.Keyed

namespace UmlDraw
namespace Layering

/-! ## Kept links -/

/-- A link joins two different nodes that none of the links before it joins, in either direction. -/
def JoinsFirst (nodes : List String) (before : List (String × String)) (a b : String) : Prop :=
  a ∈ nodes ∧ b ∈ nodes ∧ a ≠ b ∧ (a, b) ∉ before ∧ (b, a) ∉ before

/-- A link from one node to another is kept. -/
def Kept (nodes : List String) (links : List (String × String)) (a b : String) : Prop :=
  ∃ before after, links = before ++ (a, b) :: after ∧ JoinsFirst nodes before a b

section Kept

variable {nodes : List String} {links : List (String × String)} {a b : String}

lemma Kept.source_mem (h : Kept nodes links a b) : a ∈ nodes := by
  obtain ⟨_, _, _, ha, _⟩ := h
  exact ha

lemma Kept.target_mem (h : Kept nodes links a b) : b ∈ nodes := by
  obtain ⟨_, _, _, _, hb, _⟩ := h
  exact hb

lemma samePair_iff {l l' : String × String} :
    samePair l l' = true ↔ l' = l ∨ l' = (l.2, l.1) := by
  obtain ⟨a, b⟩ := l
  obtain ⟨c, d⟩ := l'
  simp only [samePair, Bool.or_eq_true, Bool.and_eq_true, beq_iff_eq, Prod.mk.injEq]
  constructor
  · rintro (⟨rfl, rfl⟩ | ⟨rfl, rfl⟩) <;> simp
  · rintro (⟨rfl, rfl⟩ | ⟨rfl, rfl⟩) <;> simp

lemma any_samePair_iff {ls : List (String × String)} :
    ls.any (samePair (a, b)) = true ↔ (a, b) ∈ ls ∨ (b, a) ∈ ls := by
  simp only [List.any_eq_true, samePair_iff, and_or_left, exists_or, exists_eq_right]

lemma keptLinks_concat (nodes : List String) (links : List (String × String)) (a b : String) :
    keptLinks nodes (links ++ [(a, b)]) =
      if nodes.contains a && nodes.contains b && a != b &&
          !(keptLinks nodes links).any (samePair (a, b))
      then keptLinks nodes links ++ [(a, b)] else keptLinks nodes links := by
  rw [keptLinks, List.foldl_append]
  rfl

lemma keptLinks_subset (nodes : List String) (links : List (String × String)) :
    keptLinks nodes links ⊆ links := by
  induction links using List.reverseRecOn with
  | nil => exact List.Subset.refl _
  | append_singleton links l ih =>
    rw [keptLinks_concat]
    split
    · exact List.append_subset.2 ⟨List.subset_append_of_subset_left _ ih,
        List.subset_append_right _ _⟩
    · exact List.subset_append_of_subset_left _ ih

/-- Two different nodes that are joined at all are joined by a kept link. -/
lemma keptLinks_joins (ha : a ∈ nodes) (hb : b ∈ nodes) (hne : a ≠ b) :
    ((a, b) ∈ keptLinks nodes links ∨ (b, a) ∈ keptLinks nodes links) ↔
      (a, b) ∈ links ∨ (b, a) ∈ links := by
  refine ⟨Or.imp (fun h => keptLinks_subset _ _ h) fun h => keptLinks_subset _ _ h, fun h => ?_⟩
  induction links using List.reverseRecOn with
  | nil => simp at h
  | append_singleton links l ih =>
    obtain ⟨c, d⟩ := l
    rw [keptLinks_concat]
    by_cases hold : (a, b) ∈ keptLinks nodes links ∨ (b, a) ∈ keptLinks nodes links
    · split
      · exact hold.imp (List.mem_append_left _) (List.mem_append_left _)
      · exact hold
    · -- the last link is the first one that joins the two
      have hlast : (a, b) = (c, d) ∨ (b, a) = (c, d) := by
        have hnew := mt ih hold
        simp only [List.mem_append, List.mem_singleton] at h
        tauto
      rw [if_pos]
      · exact hlast.imp (fun h => by simp [h]) fun h => by simp [h]
      · simp only [Bool.and_eq_true, List.contains_iff_mem, bne_iff_ne, Bool.not_eq_true',
          Bool.eq_false_iff, ne_eq, any_samePair_iff]
        rcases hlast with h | h <;> obtain ⟨rfl, rfl⟩ := Prod.mk.inj h
        · exact ⟨⟨⟨ha, hb⟩, hne⟩, hold⟩
        · exact ⟨⟨⟨hb, ha⟩, hne.symm⟩, fun h => hold h.symm⟩

open Classical in
lemma keptLinks_concat_eq (nodes : List String) (links : List (String × String)) (a b : String) :
    keptLinks nodes (links ++ [(a, b)]) =
      if JoinsFirst nodes links a b then keptLinks nodes links ++ [(a, b)]
      else keptLinks nodes links := by
  rw [keptLinks_concat]
  refine if_congr ?_ rfl rfl
  simp only [Bool.and_eq_true, List.contains_iff_mem, bne_iff_ne, Bool.not_eq_true',
    Bool.eq_false_iff, ne_eq, any_samePair_iff, and_assoc, JoinsFirst]
  refine and_congr_right fun ha => and_congr_right fun hb => and_congr_right fun hne => ?_
  rw [keptLinks_joins ha hb hne, not_or]

lemma kept_concat_iff {c d : String} : Kept nodes (links ++ [(c, d)]) a b ↔
    Kept nodes links a b ∨ (a = c ∧ b = d ∧ JoinsFirst nodes links a b) := by
  constructor
  · rintro ⟨before, after, heq, hfirst⟩
    rcases List.eq_nil_or_concat after with rfl | ⟨after, l, rfl⟩
    · obtain ⟨rfl, hlast⟩ := List.append_inj' heq rfl
      obtain ⟨rfl, rfl⟩ : c = a ∧ d = b := by simpa using hlast
      exact .inr ⟨rfl, rfl, hfirst⟩
    · rw [List.concat_eq_append, ← List.cons_append, ← List.append_assoc] at heq
      exact .inl ⟨before, after, (List.append_inj' heq rfl).1, hfirst⟩
  · rintro (⟨before, after, rfl, hfirst⟩ | ⟨rfl, rfl, hfirst⟩)
    · exact ⟨before, after ++ [(c, d)], by simp, hfirst⟩
    · exact ⟨links, [], rfl, hfirst⟩

lemma mem_keptLinks_iff : (a, b) ∈ keptLinks nodes links ↔ Kept nodes links a b := by
  induction links using List.reverseRecOn with
  | nil => simp [keptLinks, Kept]
  | append_singleton links l ih =>
    obtain ⟨c, d⟩ := l
    rw [kept_concat_iff, ← ih, keptLinks_concat_eq]
    split
    · next hfirst =>
      rw [List.mem_append, List.mem_singleton, Prod.mk.injEq]
      refine or_congr_right ⟨?_, fun h => ⟨h.1, h.2.1⟩⟩
      rintro ⟨rfl, rfl⟩
      exact ⟨rfl, rfl, hfirst⟩
    · next hfirst =>
      refine (or_iff_left ?_).symm
      rintro ⟨rfl, rfl, h⟩
      exact hfirst h

lemma nodup_keptLinks (nodes : List String) (links : List (String × String)) :
    (keptLinks nodes links).Nodup := by
  induction links using List.reverseRecOn with
  | nil => exact List.nodup_nil
  | append_singleton links l ih =>
    obtain ⟨a, b⟩ := l
    rw [keptLinks_concat_eq]
    split
    · next hfirst =>
      have hnew : (a, b) ∉ keptLinks nodes links := fun h =>
        hfirst.2.2.2.1 (keptLinks_subset _ _ h)
      rw [← List.concat_eq_append]
      exact ih.concat hnew
    · exact ih

end Kept

/-! ## The traversal -/

namespace Traversal

/-- The layer of a node so far. -/
def rankOf (t : Traversal) (node : String) : Nat :=
  (t.rank.get? node).getD 0

/-- The number of kept links into a node that come from nodes which were not visited. -/
def openDegree (kept : List (String × String)) (visited : List String) (node : String) : Nat :=
  kept.countP fun link => link.2 == node && !visited.contains link.1

/-- The nodes to which kept links lead from a node. -/
def targets (kept : List (String × String)) (node : String) : List String :=
  (kept.filter fun link => link.1 == node).map Prod.snd

section

variable {kept : List (String × String)} {nodes visited : List String} {t t' : Traversal}
  {a b node : String}

lemma mem_targets : b ∈ targets kept a ↔ (a, b) ∈ kept := by
  simp [targets]

lemma nodup_targets (h : kept.Nodup) (a : String) : (targets kept a).Nodup := by
  refine (h.filter _).map_on ?_
  rintro ⟨c, d⟩ hcd ⟨c', d'⟩ hcd' rfl
  obtain rfl : c = a := by simpa using (List.mem_filter.1 hcd).2
  obtain rfl : c' = c := by simpa using (List.mem_filter.1 hcd').2
  rfl

lemma openDegree_eq_zero_iff :
    openDegree kept visited b = 0 ↔ ∀ a, (a, b) ∈ kept → a ∈ visited := by
  simp only [openDegree, List.countP_eq_zero, Bool.and_eq_true, beq_iff_eq, Bool.not_eq_true',
    List.contains_eq_mem, decide_eq_false_iff_not, not_and, Decidable.not_not, Prod.forall]
  constructor
  · intro h a hab
    exact h a b hab rfl
  · rintro h a _ hab rfl
    exact h a hab

/-- Visiting a node takes the link from it out of the count. -/
lemma openDegree_cons (hkept : kept.Nodup) (ha : a ∉ visited) (b : String) :
    openDegree kept visited b =
      openDegree kept (a :: visited) b + if (a, b) ∈ kept then 1 else 0 := by
  rw [← hkept.count, openDegree, openDegree, List.count]
  clear hkept
  induction kept with
  | nil => rfl
  | cons link rest ih =>
    obtain ⟨c, d⟩ := link
    simp only [List.countP_cons, ih]
    by_cases hd : d = b <;> by_cases hc : c = a <;> simp [hd, hc, ha, List.contains_eq_mem] <;>
      grind

/-- What following the links from a node of layer `r` to some nodes does. -/
structure Follows (r : Nat) (ts : List String) (t t' : Traversal) : Prop where
  visited : t'.visited = t.visited
  keys : ∀ n ∈ t'.rank.keys, n ∈ t.rank.keys ∨ n ∈ ts
  rank : ∀ n, t'.rankOf n = if n ∈ ts then max (t.rankOf n) (r + 1) else t.rankOf n
  pending : ∀ n, (t'.pending.get? n).getD 0 =
    if n ∈ ts then (t.pending.get? n).getD 0 - 1 else (t.pending.get? n).getD 0
  queue : t'.queue = t.queue ++ ts.filter fun n => (t.pending.get? n).getD 0 - 1 == 0

lemma follows_foldl (r : Nat) {ts : List String} (hts : ts.Nodup)
    (hfresh : ∀ n ∈ ts, n ∉ t.visited) : Follows r ts t (ts.foldl (follow r) t) := by
  induction ts generalizing t with
  | nil => exact ⟨rfl, fun n hn => .inl hn, fun n => by simp, fun n => by simp, by simp⟩
  | cons target rest ih =>
    obtain ⟨hnot, hrest⟩ := List.nodup_cons.1 hts
    obtain ⟨htarget, hfresh⟩ := List.forall_mem_cons.1 hfresh
    have hstep : follow r t target =
        { t with
          rank := t.rank.insert target (max (t.rankOf target) (r + 1))
          pending := t.pending.insert target ((t.pending.get? target).getD 0 - 1)
          queue := if (t.pending.get? target).getD 0 - 1 == 0 then t.queue ++ [target]
            else t.queue } := by
      rw [follow, if_neg (by simpa using htarget)]
      rfl
    rw [List.foldl_cons]
    have h := ih (t := follow r t target) hrest (by rwa [hstep])
    rw [hstep] at h ⊢
    refine ⟨h.visited, fun n hn => ?_, fun n => ?_, fun n => ?_, ?_⟩
    · rcases h.keys n hn with h | h
      · rcases Keyed.mem_keys_insert.1 h with h | rfl
        · exact .inl h
        · exact .inr (List.mem_cons_self ..)
      · exact .inr (List.mem_cons_of_mem _ h)
    · rw [h.rank n]
      simp only [rankOf, Keyed.get?_insert, List.mem_cons]
      by_cases hn : n = target
      · subst hn
        simp [hnot]
      · simp [hn]
    · rw [h.pending n]
      simp only [Keyed.get?_insert, List.mem_cons]
      by_cases hn : n = target
      · subst hn
        simp [hnot]
      · simp [hn]
    · rw [h.queue]
      have hsame : ∀ n ∈ rest, n ≠ target := fun n hn hnt => hnot (hnt ▸ hn)
      have hfilter : (rest.filter fun n => ((t.pending.insert target
          ((t.pending.get? target).getD 0 - 1)).get? n).getD 0 - 1 == 0) =
          rest.filter fun n => (t.pending.get? n).getD 0 - 1 == 0 := by
        refine List.filter_congr fun n hn => ?_
        rw [Keyed.get?_insert, if_neg (hsame n hn)]
      rw [hfilter, List.filter_cons]
      split <;> simp

/-- What holds between two visits: the visited nodes are closed under kept links to them, the
waiting nodes are the next ones, and the layer of a node is one behind the last visited node that
leads to it. -/
structure Orderly (nodes : List String) (kept : List (String × String)) (t : Traversal) :
    Prop where
  nodup : (t.queue ++ t.visited).Nodup
  closed : ∀ b ∈ t.visited, ∀ a, (a, b) ∈ kept → a ∈ t.visited
  ended : ∀ b ∈ t.visited, Acc (fun a b => (a, b) ∈ kept) b
  mem_queue : ∀ b, b ∈ t.queue ↔
    b ∈ nodes ∧ b ∉ t.visited ∧ ∀ a, (a, b) ∈ kept → a ∈ t.visited
  pending : ∀ b ∈ nodes, b ∉ t.visited →
    (t.pending.get? b).getD 0 = openDegree kept t.visited b
  keys : ∀ b ∈ t.rank.keys, b ∈ nodes
  visited : ∀ b ∈ t.visited, b ∈ nodes
  lt_rank : ∀ a ∈ t.visited, ∀ b, (a, b) ∈ kept → t.rankOf a < t.rankOf b
  rank_eq : ∀ b, t.rankOf b ≠ 0 → ∃ a ∈ t.visited, (a, b) ∈ kept ∧ t.rankOf b = t.rankOf a + 1

/-- A node that waits is not visited, and none of its targets is. -/
lemma Orderly.fresh (h : Orderly nodes kept t) (ha : a ∈ t.queue) (hab : (a, b) ∈ kept) :
    b ∉ a :: t.visited := by
  obtain ⟨-, hnew, hsources⟩ := (h.mem_queue a).1 ha
  rw [List.mem_cons, not_or]
  refine ⟨?_, fun hb => hnew (h.closed b hb a hab)⟩
  rintro rfl
  exact hnew (hsources b hab)

lemma Orderly.follows_visit (h : Orderly nodes kept t) (hkept : kept.Nodup) {rest : List String}
    (hqueue : t.queue = node :: rest) :
    Follows (t.rankOf node) (targets kept node)
      { t with queue := rest, visited := node :: t.visited }
      (visit kept { t with queue := rest } node) := by
  have hnode : node ∈ t.queue := hqueue ▸ List.mem_cons_self ..
  have hnew : node ∉ t.visited := ((h.mem_queue node).1 hnode).2.1
  rw [visit, if_neg (by simpa using hnew)]
  exact follows_foldl (t.rankOf node) (nodup_targets hkept node) fun n hn =>
    h.fresh hnode (mem_targets.1 hn)

/-! What a visit to the first waiting node leaves. -/

section Next

variable {rest : List String} {t' : Traversal} (h : Orderly nodes kept t) (hkept : kept.Nodup)
  (hends : ∀ link ∈ kept, link.2 ∈ nodes) (hqueue : t.queue = node :: rest)
  (hf : Follows (t.rankOf node) (targets kept node)
    { t with queue := rest, visited := node :: t.visited } t')

include hf in
lemma mem_visited_next : b ∈ t'.visited ↔ b = node ∨ b ∈ t.visited := by
  rw [hf.visited, List.mem_cons]

include hf in
lemma rankOf_next (b : String) : t'.rankOf b =
    if (node, b) ∈ kept then max (t.rankOf b) (t.rankOf node + 1) else t.rankOf b := by
  have h := hf.rank b
  simp only [mem_targets] at h
  exact h

include h hqueue hf

/-- A node keeps its layer when it is visited. -/
lemma Orderly.rankOf_visited_next (ha : a ∈ t'.visited) : t'.rankOf a = t.rankOf a := by
  rw [rankOf_next hf, if_neg]
  intro hlink
  refine h.fresh (hqueue ▸ List.mem_cons_self ..) hlink ?_
  rwa [hf.visited] at ha

include hkept

lemma Orderly.pending_next {b : String} (hb : b ∈ nodes) (hnew : b ∉ t'.visited) :
    (t'.pending.get? b).getD 0 = openDegree kept t'.visited b := by
  have hnode := ((h.mem_queue node).1 (hqueue ▸ List.mem_cons_self ..)).2.1
  have hnew' : b ∉ t.visited := fun hv => hnew ((mem_visited_next hf).2 (.inr hv))
  rw [hf.pending b, hf.visited]
  dsimp only
  rw [h.pending b hb hnew', openDegree_cons hkept hnode]
  simp only [mem_targets]
  split <;> rfl

lemma Orderly.nodup_next : (t'.queue ++ t'.visited).Nodup := by
  have hwaits : node ∈ t.queue := hqueue ▸ List.mem_cons_self ..
  have hrest : (rest ++ node :: t.visited).Nodup := by
    rw [List.perm_middle.nodup_iff, ← List.cons_append, ← hqueue]
    exact h.nodup
  have hvisited : t'.visited = node :: t.visited := hf.visited
  rw [hf.queue, hvisited, List.append_assoc, (List.perm_append_comm_assoc _ _ _).nodup_iff]
  refine List.nodup_append.2 ⟨(nodup_targets hkept node).filter _, hrest, ?_⟩
  rintro b hb _ hb' rfl
  have hlink := mem_targets.1 (List.mem_filter.1 hb).1
  rcases List.mem_append.1 hb' with hb' | hb'
  · -- nothing that waits already is a target
    have hother := (h.mem_queue b).1 (hqueue ▸ List.mem_cons_of_mem _ hb')
    exact ((h.mem_queue node).1 hwaits).2.1 (hother.2.2 node hlink)
  · exact h.fresh hwaits hlink hb'

include hends

/-- The nodes that wait behind the others are the targets whose last open link was followed. -/
lemma Orderly.mem_queue_rest (b : String) :
    b ∈ t'.queue ↔ b ∈ rest ∨
      (node, b) ∈ kept ∧ ∀ a, (a, b) ∈ kept → a ∈ node :: t.visited := by
  have hwaits : node ∈ t.queue := hqueue ▸ List.mem_cons_self ..
  have hnode := ((h.mem_queue node).1 hwaits).2.1
  rw [hf.queue, List.mem_append, List.mem_filter, mem_targets, ← openDegree_eq_zero_iff]
  refine or_congr_right (and_congr_right fun hlink => ?_)
  have hnew : b ∉ t.visited := fun hv => h.fresh hwaits hlink (List.mem_cons_of_mem _ hv)
  have hpending := h.pending b (hends _ hlink) hnew
  rw [openDegree_cons hkept hnode, if_pos hlink] at hpending
  simp [hpending]

lemma Orderly.mem_queue_next (b : String) : b ∈ t'.queue ↔
    b ∈ nodes ∧ b ∉ t'.visited ∧ ∀ a, (a, b) ∈ kept → a ∈ t'.visited := by
  have hvisited : t'.visited = node :: t.visited := hf.visited
  have hfirst : node ∉ rest := by
    have hnodup := h.nodup
    rw [hqueue, List.cons_append] at hnodup
    exact fun hr => (List.nodup_cons.1 hnodup).1 (List.mem_append_left _ hr)
  rw [h.mem_queue_rest hkept hends hqueue hf, hvisited]
  constructor
  · rintro (hb | ⟨hlink, hall⟩)
    · obtain ⟨hmem, hnew, hall⟩ := (h.mem_queue b).1 (hqueue ▸ List.mem_cons_of_mem _ hb)
      have hne : b ≠ node := by
        rintro rfl
        exact hfirst hb
      exact ⟨hmem, List.not_mem_cons_of_ne_of_not_mem hne hnew, fun a hab =>
        List.mem_cons_of_mem _ (hall a hab)⟩
    · exact ⟨hends _ hlink, h.fresh (hqueue ▸ List.mem_cons_self ..) hlink, hall⟩
  · rintro ⟨hmem, hnew, hall⟩
    by_cases hlink : (node, b) ∈ kept
    · exact .inr ⟨hlink, hall⟩
    · rw [List.mem_cons, not_or] at hnew
      have hb : b ∈ t.queue := (h.mem_queue b).2 ⟨hmem, hnew.2, fun a hab =>
        (List.mem_cons.1 (hall a hab)).resolve_left fun ha => hlink (ha ▸ hab)⟩
      exact .inl (List.mem_of_ne_of_mem hnew.1 (hqueue ▸ hb))

omit hends hkept in
lemma Orderly.lt_rank_next (ha : a ∈ t'.visited) (hab : (a, b) ∈ kept) :
    t'.rankOf a < t'.rankOf b := by
  rw [h.rankOf_visited_next hqueue hf ha, rankOf_next hf b]
  rcases (mem_visited_next hf).1 ha with rfl | ha
  · rw [if_pos hab]
    exact Nat.lt_of_lt_of_le (Nat.lt_succ_self _) (Nat.le_max_right _ _)
  · have hlt := h.lt_rank a ha b hab
    split
    · exact Nat.lt_of_lt_of_le hlt (Nat.le_max_left _ _)
    · exact hlt

omit hends hkept in
lemma Orderly.rank_eq_next (hb : t'.rankOf b ≠ 0) :
    ∃ a ∈ t'.visited, (a, b) ∈ kept ∧ t'.rankOf b = t'.rankOf a + 1 := by
  have hstep : t'.rankOf b = t.rankOf b ∨
      ((node, b) ∈ kept ∧ t'.rankOf b = t.rankOf node + 1) := by
    rw [rankOf_next hf b]
    split
    · next hlink => exact (max_choice _ _).imp id fun h => ⟨hlink, h⟩
    · exact .inl rfl
  rcases hstep with heq | ⟨hlink, heq⟩
  · rw [heq] at hb
    obtain ⟨a, ha, hab, hrank⟩ := h.rank_eq b hb
    have ha' := (mem_visited_next hf).2 (.inr ha)
    exact ⟨a, ha', hab, by rw [heq, h.rankOf_visited_next hqueue hf ha', hrank]⟩
  · have hnode := (mem_visited_next hf).2 (.inl rfl)
    exact ⟨node, hnode, hlink, by rw [heq, h.rankOf_visited_next hqueue hf hnode]⟩

end Next

/-- The next node of the queue is visited. -/
lemma Orderly.next (h : Orderly nodes kept t) (hkept : kept.Nodup)
    (hends : ∀ link ∈ kept, link.2 ∈ nodes) {rest : List String} (hqueue : t.queue = node :: rest) :
    Orderly nodes kept (visit kept { t with queue := rest } node) := by
  obtain ⟨hmem, -, hsources⟩ := (h.mem_queue node).1 (hqueue ▸ List.mem_cons_self ..)
  have hf := h.follows_visit hkept hqueue
  generalize visit kept { t with queue := rest } node = t' at hf
  constructor
  case nodup => exact h.nodup_next hkept hqueue hf
  case closed =>
    intro b hb a hab
    refine (mem_visited_next hf).2 (.inr ?_)
    rcases (mem_visited_next hf).1 hb with rfl | hb
    · exact hsources a hab
    · exact h.closed b hb a hab
  case ended =>
    intro b hb
    rcases (mem_visited_next hf).1 hb with rfl | hb
    · exact ⟨_, fun a hab => h.ended a (hsources a hab)⟩
    · exact h.ended b hb
  case mem_queue => exact h.mem_queue_next hkept hends hqueue hf
  case pending => exact fun b hb hnew => h.pending_next hkept hqueue hf hb hnew
  case keys => exact fun b hb => (hf.keys b hb).elim (h.keys b) fun hb => hends _ (mem_targets.1 hb)
  case visited =>
    intro b hb
    rcases (mem_visited_next hf).1 hb with rfl | hb
    · exact hmem
    · exact h.visited b hb
  case lt_rank => exact fun a ha b hab => h.lt_rank_next hqueue hf ha hab
  case rank_eq => exact fun b hb => h.rank_eq_next hqueue hf hb

/-- What is left to do: the waiting nodes, and the kept links that were not followed. -/
def left (kept : List (String × String)) (t : Traversal) : Nat :=
  t.queue.length + kept.countP fun link => !t.visited.contains link.1

lemma countP_open_cons (ha : a ∉ visited) :
    kept.countP (fun link => !visited.contains link.1) =
      kept.countP (fun link => !(a :: visited).contains link.1) + (targets kept a).length := by
  rw [targets, List.length_map, ← List.countP_eq_length_filter]
  induction kept with
  | nil => rfl
  | cons link rest ih =>
    simp only [List.countP_cons, ih]
    by_cases hlink : link.1 = a <;> simp [hlink, ha, List.contains_eq_mem] <;> omega

lemma Orderly.left_next (h : Orderly nodes kept t) (hkept : kept.Nodup) {rest : List String}
    (hqueue : t.queue = node :: rest) :
    (visit kept { t with queue := rest } node).left kept < t.left kept := by
  have hnew : node ∉ t.visited := ((h.mem_queue node).1 (hqueue ▸ List.mem_cons_self ..)).2.1
  have hf := h.follows_visit hkept hqueue
  have hvisited : (visit kept { t with queue := rest } node).visited = node :: t.visited :=
    hf.visited
  have hlength : (visit kept { t with queue := rest } node).queue.length ≤
      rest.length + (targets kept node).length := by
    rw [hf.queue, List.length_append]
    exact Nat.add_le_add_left (List.length_filter_le _ _) _
  rw [left, left, hvisited, hqueue, List.length_cons, countP_open_cons hnew]
  omega

/-- With enough steps the traversal ends, and no node waits any more. -/
lemma Orderly.run (h : Orderly nodes kept t) (hkept : kept.Nodup)
    (hends : ∀ link ∈ kept, link.2 ∈ nodes) {n : Nat} (hn : t.left kept ≤ n) :
    Orderly nodes kept (run kept n t) ∧ (run kept n t).queue = [] := by
  induction n generalizing t with
  | zero =>
    have hqueue : t.queue.length = 0 := by
      unfold left at hn
      omega
    exact ⟨h, List.eq_nil_of_length_eq_zero hqueue⟩
  | succ n ih =>
    unfold Traversal.run
    split
    · next hqueue => exact ⟨h, hqueue⟩
    · next hqueue =>
      exact ih (h.next hkept hends hqueue) (by have := h.left_next hkept hqueue; omega)

/-- The traversal before the first visit. -/
def start (nodes : List String) (kept : List (String × String)) : Traversal where
  rank := Keyed.ofList ((roots nodes kept).map fun n => (n, 0))
  pending := Keyed.ofList (nodes.map fun n => (n, inDegree kept n))
  visited := []
  queue := roots nodes kept

/-- The traversal when it ends. -/
def finish (nodes : List String) (kept : List (String × String)) : Traversal :=
  run kept ((roots nodes kept).length + kept.length) (start nodes kept)

lemma get?_ofList_map {α : Type} (f : String → α) (keys : List String) (key : String) :
    (Keyed.ofList (keys.map fun n => (n, f n))).get? key =
      if key ∈ keys then some (f key) else none := by
  have hget := Keyed.get?_enter Keyed.empty (keys.map fun n => (n, f n)) key
  rw [show (Keyed.empty : Keyed α).get? key = none from rfl, Option.or_none,
    ← List.map_reverse] at hget
  refine hget.trans ?_
  rw [← if_congr List.mem_reverse rfl rfl]
  induction keys.reverse with
  | nil => rfl
  | cons k rest ih =>
    rw [List.map_cons, List.lookup_cons, ih]
    by_cases hk : key = k
    · simp [hk]
    · simp [hk, beq_eq_false_iff_ne.2 hk]

lemma mem_roots_iff (hroot : ∃ n ∈ nodes, ∀ m, (m, n) ∉ kept) :
    node ∈ roots nodes kept ↔ node ∈ nodes ∧ ∀ m, (m, node) ∉ kept := by
  have hfilter : ∀ n, (n ∈ nodes.filter fun n => inDegree kept n == 0) ↔
      n ∈ nodes ∧ ∀ m, (m, n) ∉ kept := by
    intro n
    rw [List.mem_filter, beq_iff_eq, inDegree, List.length_eq_zero_iff, List.filter_eq_nil_iff]
    simp only [beq_iff_eq, Prod.forall]
    refine and_congr_right fun _ => ⟨fun h m hm => h m n hm rfl, fun h a b hab hbn => ?_⟩
    exact h a (hbn ▸ hab)
  unfold roots
  split
  · next hnil =>
    obtain ⟨n, hn⟩ := hroot
    have hmem := (hfilter n).2 hn
    rw [hnil] at hmem
    exact nomatch hmem
  · next hcons => rw [← hcons, hfilter]

lemma orderly_start (hnodes : nodes.Nodup) (hroot : ∃ n ∈ nodes, ∀ m, (m, n) ∉ kept) :
    Orderly nodes kept (start nodes kept) := by
  have hrank : ∀ n, (start nodes kept).rankOf n = 0 := by
    intro n
    rw [rankOf, start, get?_ofList_map]
    split <;> rfl
  constructor
  case nodup =>
    show (roots nodes kept ++ []).Nodup
    rw [List.append_nil]
    unfold roots
    split
    · exact hnodes.sublist (List.take_sublist 1 nodes)
    · next hcons => exact hcons ▸ hnodes.filter _
  case closed => exact fun b hb => nomatch hb
  case ended => exact fun b hb => nomatch hb
  case mem_queue =>
    intro b
    have hnone : ∀ a, a ∉ (start nodes kept).visited := fun a ha => nomatch ha
    show b ∈ roots nodes kept ↔ _
    simp only [mem_roots_iff hroot, hnone, not_false_eq_true, true_and, imp_false]
  case pending =>
    intro b hb _
    show ((Keyed.ofList (nodes.map fun n => (n, inDegree kept n))).get? b).getD 0 = _
    rw [get?_ofList_map, if_pos hb]
    simp [inDegree, openDegree, start, List.countP_eq_length_filter]
  case keys =>
    intro b hb
    have hb : b ∈ roots nodes kept := by simpa [start, Keyed.mem_keys_ofList] using hb
    exact ((mem_roots_iff hroot).1 hb).1
  case visited => exact fun b hb => nomatch hb
  case lt_rank => exact fun a ha => nomatch ha
  case rank_eq => exact fun b hb => absurd (hrank b) hb

lemma orderly_finish (hnodes : nodes.Nodup) (hkept : kept.Nodup)
    (hends : ∀ link ∈ kept, link.2 ∈ nodes) (hroot : ∃ n ∈ nodes, ∀ m, (m, n) ∉ kept) :
    Orderly nodes kept (finish nodes kept) ∧ (finish nodes kept).queue = [] := by
  refine (orderly_start hnodes hroot).run hkept hends ?_
  exact Nat.add_le_add_left List.countP_le_length _

end

end Traversal

end Layering
end UmlDraw
