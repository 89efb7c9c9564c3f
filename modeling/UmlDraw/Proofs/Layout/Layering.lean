/-
# Boxes and layers

What layouts of several dialects are made of: boxes behind a corner, and layers of nodes along
links.

The traversal visits exactly the nodes that are neither on a cycle of kept links nor behind one.
The layer of a node is the greatest number of links on a path that ends at it and comes only from
nodes that are visited; a node on a cycle or behind one may well be pushed out of the first layer.

The main statements are

* `Layering.mem_flatten_layers`: layers hold all nodes;
* `layers_longest_path`: layers hold every node once and in order, and without cycles the layer of
  a node is the length of the longest path that ends at it;
* `isIn_first_layer_iff`: which nodes are never visited, and in which layer they stand.
-/
import Mathlib.Algebra.Order.Ring.Rat
import Mathlib.Data.Fintype.Pigeonhole
import Mathlib.Data.List.Fold
import Mathlib.Data.List.MinMax
import Mathlib.Data.List.Perm.Basic
import Mathlib.Logic.Relation
import Mathlib.Order.Bounds.Basic
import Mathlib.Tactic.Lemma
import Mathlib.Tactic.Linarith
import UmlDraw.Layout.Box
import UmlDraw.Layout.Layering
import UmlDraw.Proofs.Data.Keyed
import UmlDraw.Proofs.Layout.Traversal

namespace UmlDraw

/-! ## Boxes behind a corner

A layout starts at a corner and goes on to the right and downwards, so all its boxes lie behind the
corner. -/

namespace Fraction

lemma le_larger_left (a b : Rat) : a ≤ larger a b := by
  unfold larger
  split
  · assumption
  · exact le_rfl

lemma le_larger_right (a b : Rat) : b ≤ larger a b := by
  unfold larger
  split
  · exact le_rfl
  · exact (not_le.1 ‹_›).le

lemma le_smaller {a b q : Rat} (ha : q ≤ a) (hb : q ≤ b) : q ≤ smaller a b := by
  unfold smaller
  split <;> assumption

end Fraction

namespace Box

lemma le_foldl_larger (least : Rat) (qs : List Rat) :
    least ≤ qs.foldl Fraction.larger least ∧ ∀ q ∈ qs, q ≤ qs.foldl Fraction.larger least := by
  induction qs generalizing least with
  | nil => simp
  | cons r rest ih =>
    obtain ⟨hleast, hrest⟩ := ih (Fraction.larger least r)
    refine ⟨(Fraction.le_larger_left _ _).trans hleast, ?_⟩
    exact List.forall_mem_cons.2 ⟨(Fraction.le_larger_right _ _).trans hleast, hrest⟩

lemma le_greatest (default : Rat) {q : Rat} {qs : List Rat} (h : q ∈ qs) : q ≤ greatest default qs := by
  cases qs with
  | nil => cases h
  | cons r rest =>
    obtain ⟨hfirst, hrest⟩ := le_foldl_larger r rest
    rcases List.mem_cons.1 h with rfl | h
    · exact hfirst
    · exact hrest q h

/-- The greatest number is one of the numbers. -/
lemma greatest_mem (default : Rat) (qs : List Rat) :
    greatest default qs = default ∨ greatest default qs ∈ qs := by
  have hfold : ∀ (qs : List Rat) (r : Rat), qs.foldl Fraction.larger r ∈ r :: qs := by
    intro qs
    induction qs with
    | nil => simp
    | cons q rest ih =>
      intro r
      have h := ih (Fraction.larger r q)
      rw [List.foldl_cons]
      rcases List.mem_cons.1 h with h | h
      · rw [h, Fraction.larger]
        split <;> simp
      · simp [h]
  cases qs with
  | nil => exact .inl rfl
  | cons r rest => exact .inr (hfold rest r)

/-- A box lies behind a corner, and its sides are not negative. -/
structure IsBehind (x y : Rat) (b : Box) : Prop where
  left : x ≤ b.x
  top : y ≤ b.y
  width : 0 ≤ b.width
  height : 0 ≤ b.height

variable {x y x' y' : Rat} {b : Box}

lemma IsBehind.mono (h : b.IsBehind x y) (hx : x' ≤ x) (hy : y' ≤ y) : b.IsBehind x' y' :=
  ⟨hx.trans h.left, hy.trans h.top, h.width, h.height⟩

lemma IsBehind.le_right (h : b.IsBehind x y) : x ≤ b.right := by
  have := h.left
  have := h.width
  unfold right
  linarith

lemma IsBehind.le_centerX (h : b.IsBehind x y) : x ≤ b.centerX := by
  have := h.left
  have := h.width
  unfold centerX
  linarith

end Box

/-! ## Layers hold all nodes

Whatever the links are, layers neither add nor drop nodes: a node that the traversal does not reach
is in the first layer. -/

namespace Layering

/-- No node has a rank above the last one. -/
lemma rank_le (rank : Keyed Nat) (node : String) :
    (rank.get? node).getD 0 ≤ rank.values.foldl max 0 := by
  cases h : rank.get? node with
  | none => exact Nat.zero_le _
  | some r =>
    have hr : r ∈ rank.values := List.mem_map_of_mem (Keyed.get?_eq_some_iff.1 h)
    rw [List.foldl_eq_foldr]
    exact List.le_max_of_le' 0 hr le_rfl

/-- The nodes in layers are all the nodes. -/
theorem mem_flatten_layers {nodes : List String} {links : List (String × String)}
    {node : String} : node ∈ (layers nodes links).flatten ↔ node ∈ nodes := by
  generalize hrank : ranks nodes (keptLinks nodes links) = rank
  simp only [layers, hrank, List.mem_flatten, List.mem_filter, List.mem_map, List.mem_range]
  constructor
  · rintro ⟨_, ⟨⟨r, -, rfl⟩, -⟩, hnode⟩
    exact (List.mem_filter.1 hnode).1
  · intro hnode
    have hlayer : node ∈ nodes.filter fun n =>
        (rank.get? n).getD 0 == (rank.get? node).getD 0 :=
      List.mem_filter.2 ⟨hnode, beq_self_eq_true _⟩
    refine ⟨_, ⟨⟨_, Nat.lt_succ_of_le (rank_le rank node), rfl⟩, ?_⟩, hlayer⟩
    simpa using List.ne_nil_of_mem hlayer

/-! ## Cycles and paths -/

section Paths

variable {link : String → String → Prop} {a b node : String} {k : Nat}

/-- A node lies on a cycle of links or behind one. -/
def BehindCycle (link : String → String → Prop) (node : String) : Prop :=
  ∃ m, Relation.TransGen link m m ∧ Relation.ReflTransGen link m node

/-- Some links, one after the other, lead to a node; the second argument is their number. -/
inductive PathTo (link : String → String → Prop) : String → Nat → Prop
  | here (node : String) : PathTo link node 0
  | step {a b : String} {k : Nat} (h : PathTo link a k) (hab : link a b) : PathTo link b (k + 1)

lemma PathTo.mono {link' : String → String → Prop} (h : PathTo link node k)
    (hlink : ∀ a b, link a b → link' a b) : PathTo link' node k := by
  induction h with
  | here => exact .here _
  | step _ hab ih => exact .step ih (hlink _ _ hab)

lemma not_behindCycle_of_acc (h : Acc link node) : ¬ BehindCycle link node := by
  rintro ⟨m, hcycle, hbehind⟩
  induction h generalizing m with
  | intro b _ ih =>
    rcases Relation.ReflTransGen.cases_tail hbehind with rfl | ⟨a, hma, hab⟩
    · -- the cycle goes through the node before
      obtain ⟨a, hba, hab⟩ := Relation.TransGen.tail'_iff.1 hcycle
      exact ih a hab a (Relation.TransGen.head' hab hba) .refl
    · exact ih a hab m hcycle hma

lemma acyclic_of_lt {f : String → Nat} (h : ∀ a b, link a b → f a < f b) (n : String) :
    ¬ Relation.TransGen link n n := by
  have hlt : ∀ m, Relation.TransGen link n m → f n < f m := by
    intro m hm
    induction hm with
    | single hab => exact h _ _ hab
    | tail _ hab ih => exact ih.trans (h _ _ hab)
  exact fun hn => (hlt n hn).false

/-- Where links lead to every node from some other one, there is a cycle before each of them. -/
lemma behindCycle_of_forall_exists {S : List String} (h : ∀ b ∈ S, ∃ a ∈ S, link a b)
    (hnode : node ∈ S) : BehindCycle link node := by
  choose! before hbefore hlink using h
  have hmem : ∀ k, before^[k] node ∈ S := by
    intro k
    induction k with
    | zero => exact hnode
    | succ k ih =>
      rw [Function.iterate_succ_apply']
      exact hbefore _ ih
  have hback : ∀ i k, Relation.ReflTransGen link (before^[i + k] node) (before^[i] node) := by
    intro i k
    induction k with
    | zero => exact .refl
    | succ k ih =>
      rw [← Nat.add_assoc, Function.iterate_succ_apply']
      exact .head (hlink _ (hmem _)) ih
  -- some node is met twice on the way back
  obtain ⟨i, j, hne, heq⟩ :=
    Finite.exists_ne_map_eq_of_infinite fun k => (⟨before^[k] node, hmem k⟩ : {n // n ∈ S})
  have hsame : before^[i] node = before^[j] node := congrArg Subtype.val heq
  wlog hij : i < j generalizing i j
  · exact this j i hne.symm heq.symm hsame.symm (by omega)
  obtain ⟨k, rfl⟩ := Nat.exists_eq_add_of_lt hij
  refine ⟨before^[i] node, ?_, by simpa using hback 0 i⟩
  have hcycle := Relation.TransGen.head' (hlink _ (hmem (i + k))) (hback i k)
  rw [← Function.iterate_succ_apply' before] at hcycle
  exact hsame ▸ hcycle

end Paths

namespace Traversal

variable {kept : List (String × String)} {nodes : List String} {t : Traversal} {node : String}

/-- The layer of a node is the greatest number of links on a path to it from visited nodes. -/
lemma Orderly.isGreatest_rankOf (h : Orderly nodes kept t) (node : String) :
    IsGreatest {k | PathTo (fun a b => a ∈ t.visited ∧ (a, b) ∈ kept) node k} (t.rankOf node) := by
  constructor
  · induction hk : t.rankOf node generalizing node with
    | zero => exact .here node
    | succ k ih =>
      obtain ⟨a, ha, hlink, hrank⟩ := h.rank_eq node (by omega)
      exact PathTo.step (ih a (by omega)) ⟨ha, hlink⟩
  · intro k hk
    induction hk with
    | here => exact Nat.zero_le _
    | step _ hab ih => exact Nat.lt_of_le_of_lt ih (h.lt_rank _ hab.1 _ hab.2)

/-- Below the layer of a node there is no layer without nodes. -/
lemma Orderly.exists_rankOf_eq (h : Orderly nodes kept t) (hnode : node ∈ nodes) {r : Nat}
    (hr : r ≤ t.rankOf node) : ∃ n ∈ nodes, t.rankOf n = r := by
  induction hk : t.rankOf node generalizing node with
  | zero => exact ⟨node, hnode, by omega⟩
  | succ k ih =>
    obtain rfl | hlt : r = k + 1 ∨ r ≤ k := by omega
    · exact ⟨node, hnode, hk⟩
    · obtain ⟨a, ha, -, hrank⟩ := h.rank_eq node (by omega)
      exact ih (h.visited a ha) (by omega) (by omega)

/-- The last layer has a node. -/
lemma Orderly.exists_rankOf_last (h : Orderly nodes kept t) (hnode : node ∈ nodes) :
    ∃ n ∈ nodes, t.rankOf n = t.rank.values.foldl max 0 := by
  have hlast : ∀ (rs : List Nat) (r : Nat), rs.foldl max r ∈ r :: rs := by
    intro rs
    induction rs with
    | nil => exact fun r => List.mem_singleton.2 rfl
    | cons r' rest ih =>
      intro r
      rw [List.foldl_cons]
      rcases List.mem_cons.1 (ih (max r r')) with h | h
      · rw [h]
        exact (max_choice r r').elim (fun h => by simp [h]) fun h => by simp [h]
      · exact List.mem_cons_of_mem _ (List.mem_cons_of_mem _ h)
  rcases List.mem_cons.1 (hlast t.rank.values 0) with hzero | hmem
  · rw [hzero]
    exact h.exists_rankOf_eq hnode (Nat.zero_le _)
  · obtain ⟨⟨n, r⟩, hentry, hr⟩ := List.mem_map.1 hmem
    refine ⟨n, h.keys n (List.mem_map_of_mem hentry), ?_⟩
    rw [← hr, rankOf, Keyed.get?_eq_some_iff.2 hentry]
    rfl

/-- When no node waits, the nodes that were not visited are those on and behind cycles. -/
lemma Orderly.mem_visited_iff (h : Orderly nodes kept t) (hqueue : t.queue = [])
    (hends : ∀ link ∈ kept, link.1 ∈ nodes) :
    node ∈ t.visited ↔ node ∈ nodes ∧ ¬ BehindCycle (fun a b => (a, b) ∈ kept) node := by
  constructor
  · exact fun hnode => ⟨h.visited node hnode, not_behindCycle_of_acc (h.ended node hnode)⟩
  · rintro ⟨hmem, hnot⟩
    by_contra hnew
    refine hnot (behindCycle_of_forall_exists (S := nodes.filter fun n => n ∉ t.visited) ?_ ?_)
    · intro b hb
      obtain ⟨hb, hbv⟩ : b ∈ nodes ∧ b ∉ t.visited := by simpa using hb
      have hwaits := mt (h.mem_queue b).2 (hqueue ▸ List.not_mem_nil)
      push Not at hwaits
      obtain ⟨a, hab, ha⟩ := hwaits hb hbv
      exact ⟨a, by simpa using ⟨hends _ hab, ha⟩, hab⟩
    · simpa using ⟨hmem, hnew⟩

end Traversal

/-! ## Layers -/

/-- A node is in a layer, counted from 0. -/
def IsIn (layers : List (List String)) (i : Nat) (node : String) : Prop :=
  ∃ layer, layers[i]? = some layer ∧ node ∈ layer

section Layers

variable {nodes : List String} {links : List (String × String)} {node : String} {i : Nat}

lemma layers_nonempty {layer : List String} (h : layer ∈ layers nodes links) :
    layer ≠ [] ∧ layer.Sublist nodes := by
  obtain ⟨hmem, hne⟩ := List.mem_filter.1 h
  obtain ⟨r, -, rfl⟩ := List.mem_map.1 hmem
  exact ⟨by simpa using hne, List.filter_sublist⟩

/-- Layers hold every node once. -/
lemma layers_perm (hnodes : nodes.Nodup) (links : List (String × String)) :
    (layers nodes links).flatten.Perm nodes := by
  refine (List.perm_ext_iff_of_nodup ?_ hnodes).2 fun node => mem_flatten_layers
  refine List.nodup_flatten.2 ⟨fun layer hlayer => ?_, ?_⟩
  · exact hnodes.sublist (layers_nonempty hlayer).2
  · refine List.Pairwise.filter _ (List.pairwise_map.2 ?_)
    refine List.Pairwise.imp (fun {r r'} hne => ?_) List.nodup_range
    intro n hn hn'
    have hr := (List.mem_filter.1 hn).2
    have hr' := (List.mem_filter.1 hn').2
    rw [beq_iff_eq] at hr hr'
    exact hne (hr.symm.trans hr')

/-- Some node has no kept link to it. -/
def HasRoot (nodes : List String) (links : List (String × String)) : Prop :=
  ∃ n ∈ nodes, ∀ m, ¬ Kept nodes links m n

/-- The nodes that the traversal visits. -/
def visited (nodes : List String) (links : List (String × String)) : List String :=
  (Traversal.finish nodes (keptLinks nodes links)).visited

lemma link_keptLinks : (fun a b => (a, b) ∈ keptLinks nodes links) = Kept nodes links := by
  funext a b
  exact propext mem_keptLinks_iff

lemma orderly_keptLinks (hnodes : nodes.Nodup) (hroot : HasRoot nodes links) :
    Traversal.Orderly nodes (keptLinks nodes links)
        (Traversal.finish nodes (keptLinks nodes links)) ∧
      (Traversal.finish nodes (keptLinks nodes links)).queue = [] := by
  refine Traversal.orderly_finish hnodes (nodup_keptLinks nodes links) (fun link hlink => ?_) ?_
  · exact (mem_keptLinks_iff.1 hlink).target_mem
  · simp only [mem_keptLinks_iff]
    exact hroot

/-- The traversal visits the nodes that are neither on a cycle of kept links nor behind one. -/
lemma mem_visited_iff (hnodes : nodes.Nodup) (hroot : HasRoot nodes links) :
    node ∈ visited nodes links ↔ node ∈ nodes ∧ ¬ BehindCycle (Kept nodes links) node := by
  obtain ⟨horderly, hqueue⟩ := orderly_keptLinks hnodes hroot
  rw [visited, horderly.mem_visited_iff hqueue, link_keptLinks]
  exact fun link hlink => (mem_keptLinks_iff.1 hlink).source_mem

/-- No layer before the last one is empty, so the nodes of layer `i` are those of rank `i`. -/
lemma isIn_layers_iff (hnodes : nodes.Nodup) (hroot : HasRoot nodes links) :
    IsIn (layers nodes links) i node ↔ node ∈ nodes ∧
      (Traversal.finish nodes (keptLinks nodes links)).rankOf node = i := by
  obtain ⟨horderly, -⟩ := orderly_keptLinks hnodes hroot
  generalize hfinish : Traversal.finish nodes (keptLinks nodes links) = t at horderly
  have hlayers : layers nodes links = ((List.range (t.rank.values.foldl max 0 + 1)).map fun r =>
      nodes.filter fun n => t.rankOf n == r).filter fun l => !l.isEmpty := by
    rw [← hfinish]
    rfl
  obtain ⟨root, hroot, -⟩ := hroot
  obtain ⟨final, hfinal, hlast⟩ := horderly.exists_rankOf_last hroot
  rw [hlayers, List.filter_eq_self.2]
  · constructor
    · rintro ⟨layer, hget, hnode⟩
      simp only [List.getElem?_map, Option.map_eq_some_iff, List.getElem?_eq_some_iff,
        List.length_range, List.getElem_range] at hget
      obtain ⟨_, ⟨-, rfl⟩, rfl⟩ := hget
      simpa using hnode
    · rintro ⟨hnode, rfl⟩
      have hlt := Nat.lt_succ_of_le (rank_le t.rank node)
      refine ⟨nodes.filter fun n => t.rankOf n == t.rankOf node, ?_,
        List.mem_filter.2 ⟨hnode, beq_self_eq_true _⟩⟩
      rw [List.getElem?_map, Traversal.rankOf, List.getElem?_range hlt]
      rfl
  · intro layer hlayer
    obtain ⟨r, hr, rfl⟩ := List.mem_map.1 hlayer
    have hr : r ≤ t.rankOf final := hlast ▸ Nat.le_of_lt_succ (List.mem_range.1 hr)
    obtain ⟨n, hn, rfl⟩ := horderly.exists_rankOf_eq hfinal hr
    have hin : n ∈ nodes.filter fun m => t.rankOf m == t.rankOf n :=
      List.mem_filter.2 ⟨hn, beq_self_eq_true _⟩
    simpa using List.ne_nil_of_mem hin

/-- A kept link out of a node that is neither on a cycle of kept links nor behind one. -/
def ClearLink (nodes : List String) (links : List (String × String)) (a b : String) : Prop :=
  ¬ BehindCycle (Kept nodes links) a ∧ Kept nodes links a b

/-- The layer of a node is the greatest number of links on a path to it from visited nodes. -/
lemma isIn_layers_iff_isGreatest (hnodes : nodes.Nodup) (hroot : HasRoot nodes links) :
    IsIn (layers nodes links) i node ↔
      node ∈ nodes ∧ IsGreatest {k | PathTo (ClearLink nodes links) node k} i := by
  obtain ⟨horderly, -⟩ := orderly_keptLinks hnodes hroot
  have hlink : (fun a b => a ∈ visited nodes links ∧ (a, b) ∈ keptLinks nodes links) =
      ClearLink nodes links := by
    funext a b
    rw [mem_visited_iff hnodes hroot, mem_keptLinks_iff, ClearLink, eq_iff_iff]
    exact ⟨fun h => ⟨h.1.2, h.2⟩, fun h => ⟨⟨h.2.source_mem, h.1⟩, h.2⟩⟩
  have hgreatest := horderly.isGreatest_rankOf node
  rw [show (Traversal.finish nodes (keptLinks nodes links)).visited = visited nodes links from rfl,
    hlink] at hgreatest
  rw [isIn_layers_iff hnodes hroot]
  exact and_congr_right fun _ => ⟨fun h => h ▸ hgreatest, fun h => hgreatest.unique h⟩

lemma hasRoot_of_forall_ne {n : String} (hn : n ∈ nodes)
    (hnone : ∀ link ∈ keptLinks nodes links, link.2 ≠ n) : HasRoot nodes links :=
  ⟨n, hn, fun _ hlink => hnone _ (mem_keptLinks_iff.2 hlink) rfl⟩

/-- Without a cycle some node has no kept link to it. -/
lemma hasRoot_of_acyclic (hacyclic : ∀ n, ¬ Relation.TransGen (Kept nodes links) n n)
    (hnode : node ∈ nodes) : HasRoot nodes links := by
  by_contra hnone
  have hall : ∀ b ∈ nodes, ∃ a ∈ nodes, Kept nodes links a b := by
    intro b hb
    by_contra hno
    exact hnone ⟨b, hb, fun a hab => hno ⟨a, hab.source_mem, hab⟩⟩
  obtain ⟨m, hm, -⟩ := behindCycle_of_forall_exists hall hnode
  exact hacyclic m hm

/-- Layers are not empty, keep the order of the nodes and hold every node once.  If the kept links
have no cycle, a node stands in the layer whose number is the length of the longest path of kept
links to it, and every kept link leads to a later layer. -/
theorem layers_longest_path (hnodes : nodes.Nodup) (links : List (String × String)) :
    (∀ layer ∈ layers nodes links, layer ≠ [] ∧ layer.Sublist nodes) ∧
    (layers nodes links).flatten.Perm nodes ∧
    ((∀ n, ¬ Relation.TransGen (Kept nodes links) n n) →
      (∀ i node, IsIn (layers nodes links) i node →
        IsGreatest {k | PathTo (Kept nodes links) node k} i) ∧
      ∀ a b, Kept nodes links a b → ∀ i j, IsIn (layers nodes links) i a →
        IsIn (layers nodes links) j b → i < j) := by
  refine ⟨fun layer => layers_nonempty, layers_perm hnodes links, fun hacyclic => ?_⟩
  have hclear : ClearLink nodes links = Kept nodes links := by
    funext a b
    refine propext ⟨fun h => h.2, fun h => ⟨?_, h⟩⟩
    rintro ⟨m, hm, -⟩
    exact hacyclic m hm
  have hgreatest : ∀ i node, IsIn (layers nodes links) i node →
      IsGreatest {k | PathTo (Kept nodes links) node k} i := by
    intro i node hin
    have hnode : node ∈ nodes := by
      obtain ⟨layer, hget, hnode⟩ := hin
      exact (layers_nonempty (List.mem_of_getElem? hget)).2.subset hnode
    rw [← hclear]
    exact ((isIn_layers_iff_isGreatest hnodes (hasRoot_of_acyclic hacyclic hnode)).1 hin).2
  refine ⟨hgreatest, fun a b hab i j ha hb => ?_⟩
  exact (hgreatest j b hb).2 (PathTo.step (hgreatest i a ha).1 hab)

/-- The link back from the last node is not kept, so there is no cycle. -/
theorem layers_longest_path_back :
    ["a", "b", "c"].Nodup ∧
    (∀ n, ¬ Relation.TransGen
      (Kept ["a", "b", "c"] [("a", "b"), ("a", "c"), ("b", "c"), ("c", "b")]) n n) ∧
    layers ["a", "b", "c"] [("a", "b"), ("a", "c"), ("b", "c"), ("c", "b")] =
      [["a"], ["b"], ["c"]] ∧
    IsGreatest {k | PathTo
      (Kept ["a", "b", "c"] [("a", "b"), ("a", "c"), ("b", "c"), ("c", "b")]) "c" k} 2 := by
  have hnodes : ["a", "b", "c"].Nodup := by decide
  have hlayers : layers ["a", "b", "c"] [("a", "b"), ("a", "c"), ("b", "c"), ("c", "b")] =
      [["a"], ["b"], ["c"]] := rfl
  have hforward : ∀ link ∈ keptLinks ["a", "b", "c"]
      [("a", "b"), ("a", "c"), ("b", "c"), ("c", "b")],
      ["a", "b", "c"].idxOf link.1 < ["a", "b", "c"].idxOf link.2 := by decide
  have hacyclic : ∀ n, ¬ Relation.TransGen
      (Kept ["a", "b", "c"] [("a", "b"), ("a", "c"), ("b", "c"), ("c", "b")]) n n :=
    acyclic_of_lt (f := ["a", "b", "c"].idxOf) fun a b hab => hforward _ (mem_keptLinks_iff.2 hab)
  refine ⟨hnodes, hacyclic, hlayers, ?_⟩
  refine ((layers_longest_path hnodes _).2.2 hacyclic).1 2 "c" ?_
  rw [hlayers]
  exact ⟨["c"], rfl, List.mem_singleton.2 rfl⟩

/-- The nodes that are not visited are those on and behind cycles of kept links.  As every node,
such a node stands in the layer whose number is the length of the longest path to it that comes only
from visited nodes.  This is the first layer if and only if no kept link leads to it from a visited
node. -/
theorem isIn_first_layer_iff (hnodes : nodes.Nodup) (hroot : HasRoot nodes links)
    (hnode : node ∈ nodes) :
    (node ∉ visited nodes links ↔ BehindCycle (Kept nodes links) node) ∧
    (∀ i, IsIn (layers nodes links) i node ↔
      IsGreatest {k | PathTo (ClearLink nodes links) node k} i) ∧
    (IsIn (layers nodes links) 0 node ↔
      ∀ a, a ∈ visited nodes links → ¬ Kept nodes links a node) := by
  have hiff : ∀ i, IsIn (layers nodes links) i node ↔
      IsGreatest {k | PathTo (ClearLink nodes links) node k} i := fun i =>
    (isIn_layers_iff_isGreatest hnodes hroot).trans (and_iff_right hnode)
  refine ⟨?_, hiff, ?_⟩
  · rw [mem_visited_iff hnodes hroot, and_iff_right hnode, not_not]
  · rw [hiff 0]
    constructor
    · intro hgreatest a ha hlink
      have hclear : ClearLink nodes links a node :=
        ⟨((mem_visited_iff hnodes hroot).1 ha).2, hlink⟩
      exact Nat.not_succ_le_zero 0 (hgreatest.2 (PathTo.step (.here a) hclear))
    · intro hnone
      refine ⟨.here node, fun k hk => ?_⟩
      cases hk with
      | here => exact le_rfl
      | step _ hclear =>
        exact absurd hclear.2 (hnone _
          ((mem_visited_iff hnodes hroot).2 ⟨hclear.2.source_mem, hclear.1⟩))

/-- The first node of a cycle is pushed on by the nodes that lead to it. -/
theorem isIn_first_layer_iff_ring :
    ["r", "s", "x", "y", "z"].Nodup ∧
    HasRoot ["r", "s", "x", "y", "z"]
      [("r", "s"), ("s", "x"), ("x", "y"), ("y", "z"), ("z", "x")] ∧
    "x" ∈ ["r", "s", "x", "y", "z"] ∧
    IsGreatest {k | PathTo (ClearLink ["r", "s", "x", "y", "z"]
      [("r", "s"), ("s", "x"), ("x", "y"), ("y", "z"), ("z", "x")]) "x" k} 2 := by
  have hnodes : ["r", "s", "x", "y", "z"].Nodup := by decide
  have hroot : HasRoot ["r", "s", "x", "y", "z"]
      [("r", "s"), ("s", "x"), ("x", "y"), ("y", "z"), ("z", "x")] :=
    hasRoot_of_forall_ne (n := "r") (by decide) (by decide)
  have hx : "x" ∈ ["r", "s", "x", "y", "z"] := by decide
  refine ⟨hnodes, hroot, hx, ((isIn_first_layer_iff hnodes hroot hx).2.1 2).1 ?_⟩
  exact ⟨["x"], rfl, by decide⟩

/-- A node of a cycle is never visited, and it is not in the first layer. -/
theorem not_isIn_first_layer_ring :
    ["r", "x", "y", "z"].Nodup ∧
    HasRoot ["r", "x", "y", "z"] [("r", "x"), ("x", "y"), ("y", "z"), ("z", "x")] ∧
    BehindCycle (Kept ["r", "x", "y", "z"] [("r", "x"), ("x", "y"), ("y", "z"), ("z", "x")]) "x" ∧
    "x" ∉ visited ["r", "x", "y", "z"] [("r", "x"), ("x", "y"), ("y", "z"), ("z", "x")] ∧
    layers ["r", "x", "y", "z"] [("r", "x"), ("x", "y"), ("y", "z"), ("z", "x")] =
      [["r", "y", "z"], ["x"]] ∧
    ¬ IsIn (layers ["r", "x", "y", "z"] [("r", "x"), ("x", "y"), ("y", "z"), ("z", "x")]) 0
      "x" := by
  have hkept : ∀ a b, (a, b) ∈ keptLinks ["r", "x", "y", "z"]
      [("r", "x"), ("x", "y"), ("y", "z"), ("z", "x")] →
      Kept ["r", "x", "y", "z"] [("r", "x"), ("x", "y"), ("y", "z"), ("z", "x")] a b :=
    fun a b => mem_keptLinks_iff.1
  have hring := (Relation.TransGen.single (hkept "x" "y" (by decide))).tail
    (hkept "y" "z" (by decide)) |>.tail (hkept "z" "x" (by decide))
  have hroot : HasRoot ["r", "x", "y", "z"] [("r", "x"), ("x", "y"), ("y", "z"), ("z", "x")] :=
    hasRoot_of_forall_ne (n := "r") (by decide) (by decide)
  have hlayers : layers ["r", "x", "y", "z"] [("r", "x"), ("x", "y"), ("y", "z"), ("z", "x")] =
      [["r", "y", "z"], ["x"]] := rfl
  refine ⟨by decide, hroot, ⟨"x", hring, .refl⟩, by decide, hlayers, ?_⟩
  rw [hlayers]
  rintro ⟨layer, hget, hx⟩
  obtain rfl := Option.some.inj hget
  exact absurd hx (by decide)

end Layers
end Layering
end UmlDraw
