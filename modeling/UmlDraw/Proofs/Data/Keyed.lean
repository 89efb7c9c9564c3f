/-
# Keys and entries of a table

The main statements are `Keyed.mem_keys_iff`, `Keyed.mem_keys_insert` and `Keyed.get?_eq_some_iff`,
and `Keyed.get?_enter`, `Keyed.get?_enterNew` and `Keyed.entries_enter` for tables that are filled
entry by entry.
-/
import Mathlib.Data.List.Nodup
import Mathlib.Tactic.Lemma
import UmlDraw.Data.Keyed

namespace UmlDraw
namespace Keyed

variable {α β : Type} {t : Keyed α} {key : String} {a : α}

lemma mem_keys_iff : key ∈ t.keys ↔ ∃ a, t.get? key = some a := by
  rw [← Option.isSome_iff_exists, ← contains_iff, contains]

lemma mem_keys_insert {value : α} {other : String} :
    other ∈ (t.insert key value).keys ↔ other ∈ t.keys ∨ other = key := by
  rw [keys_insert]
  split
  · next h =>
    constructor
    · exact Or.inl
    · rintro (h' | rfl)
      · exact h'
      · exact h
  · simp

lemma get?_eq_some_iff : t.get? key = some a ↔ (key, a) ∈ t.entries := by
  have hmem : ∀ {b}, t.get? key = some b → (key, b) ∈ t.entries := by
    intro b hb
    obtain ⟨before, after, hentries, -⟩ := List.lookup_eq_some_iff.1 hb
    simp [hentries]
  constructor
  · exact hmem
  · intro ha
    obtain ⟨b, hb⟩ := mem_keys_iff.1 (List.mem_map_of_mem ha)
    -- the key stands in one entry only
    have hsame := List.inj_on_of_nodup_map t.nodup ha (hmem hb) rfl
    rw [hb, (Prod.mk.inj hsame).2]

/-! ### Values that tell their keys -/

variable {keyOf : α → String}

lemma map_values (h : ∀ key a, t.get? key = some a → keyOf a = key) :
    t.values.map keyOf = t.keys := by
  rw [values, keys, List.map_map]
  refine List.map_congr_left fun entry hentry => ?_
  exact h entry.1 entry.2 (get?_eq_some_iff.2 hentry)

lemma mem_values_iff (h : ∀ key a, t.get? key = some a → keyOf a = key) :
    a ∈ t.values ↔ t.get? (keyOf a) = some a := by
  rw [get?_eq_some_iff, values, List.mem_map]
  constructor
  · rintro ⟨⟨key, a'⟩, hentry, rfl⟩
    rwa [h key a' (get?_eq_some_iff.2 hentry)]
  · intro hentry
    exact ⟨_, hentry, rfl⟩

/-! ### Tables that grow -/

/-- The second table has the keys of the first one and the given keys. -/
structure Gains (t t' : Keyed α) (keys : List String) : Prop where
  old : t.keys ⊆ t'.keys
  new : keys ⊆ t'.keys

variable {t' t'' : Keyed α} {keys keys' : List String}

lemma Gains.refl (t : Keyed α) : t.Gains t [] :=
  ⟨List.Subset.refl _, List.nil_subset _⟩

lemma Gains.trans (h : t.Gains t' keys) (h' : t'.Gains t'' keys') :
    t.Gains t'' (keys ++ keys') where
  old := List.Subset.trans h.old h'.old
  new := List.append_subset.2 ⟨List.Subset.trans h.new h'.old, h'.new⟩

lemma Gains.mono (h : t.Gains t' keys) (hsub : keys' ⊆ keys) : t.Gains t' keys' :=
  ⟨h.old, List.Subset.trans hsub h.new⟩

lemma gains_insert (t : Keyed α) (key : String) (value : α) :
    t.Gains (t.insert key value) [key] where
  old := fun _ h => mem_keys_insert.2 (.inl h)
  new := fun _ h => mem_keys_insert.2 (.inr (List.mem_singleton.1 h))

lemma keys_prefix_insert (t : Keyed α) (key : String) (value : α) :
    t.keys <+: (t.insert key value).keys := by
  rw [keys_insert]
  split
  · exact List.prefix_rfl
  · exact List.prefix_append _ _

lemma keys_prefix_modify (t : Keyed α) (key : String) (f : α → α) :
    t.keys <+: (t.modify key f).keys :=
  (keys_modify t key f).symm ▸ List.prefix_rfl

/-- Entering a new value that is made from the old one changes the old one. -/
lemma insert_eq_modify (h : t.get? key = some a) (f : α → α) :
    t.insert key (f a) = t.modify key f := by
  have hentries : ∀ e ∈ t.entries, (if e.1 = key then f a else e.2) =
      if e.1 = key then f e.2 else e.2 := by
    rintro ⟨k, b⟩ he
    by_cases hk : k = key
    · subst hk
      rw [← get?_eq_some_iff, h] at he
      rw [if_pos rfl, if_pos rfl, Option.some.inj he]
    · rw [if_neg hk, if_neg hk]
  unfold insert
  rw [dif_pos (mem_keys_iff.2 ⟨a, h⟩), modify, modify, map, map]
  congr 1
  exact List.map_congr_left fun e he => congrArg (Prod.mk e.1) (hentries e he)

/-! ### What holds for all values -/

/-- All values of a table have a property. -/
def All (Q : α → Prop) (t : Keyed α) : Prop :=
  ∀ key a, t.get? key = some a → Q a

variable {Q R : α → Prop}

lemma all_empty : All Q empty :=
  fun _ _ h => nomatch h

lemma All.insert (h : All Q t) (ha : Q a) : All Q (t.insert key a) := by
  intro other b hb
  rw [get?_insert] at hb
  split at hb
  · rwa [← Option.some.inj hb]
  · exact h other b hb

lemma All.modify (h : All Q t) {f : α → α} (hf : ∀ a, Q a → Q (f a)) : All Q (t.modify key f) := by
  intro other b hb
  rw [get?_modify] at hb
  split at hb
  · obtain ⟨a, ha, rfl⟩ := Option.map_eq_some_iff.1 hb
    exact hf a (h other a ha)
  · exact h other b hb

lemma All.imp (h : All Q t) (hQ : ∀ a, Q a → R a) : All R t :=
  fun key a ha => hQ a (h key a ha)

/-! ### Filling a table -/

/-- Enters keys and values one after the other; of several values of a key the last counts. -/
def enter (t : Keyed α) (pairs : List (String × α)) : Keyed α :=
  pairs.foldl (fun t p => t.insert p.1 p.2) t

/-- Enters the keys one after the other that have no value yet; of several values of a key the first
counts. -/
def enterNew (t : Keyed α) (pairs : List (String × α)) : Keyed α :=
  pairs.foldl (fun t p => if t.contains p.1 then t else t.insert p.1 p.2) t

lemma enter_append (t : Keyed α) (pairs pairs' : List (String × α)) :
    t.enter (pairs ++ pairs') = (t.enter pairs).enter pairs' :=
  List.foldl_append

lemma enterNew_append (t : Keyed α) (pairs pairs' : List (String × α)) :
    t.enterNew (pairs ++ pairs') = (t.enterNew pairs).enterNew pairs' :=
  List.foldl_append

lemma get?_enter (t : Keyed α) (pairs : List (String × α)) (key : String) :
    (t.enter pairs).get? key = (pairs.reverse.lookup key).or (t.get? key) := by
  induction pairs generalizing t with
  | nil => rfl
  | cons p rest ih =>
    obtain ⟨k, a⟩ := p
    have hstep := ih (t.insert k a)
    rw [get?_insert] at hstep
    rw [List.reverse_cons, List.lookup_append, Option.or_assoc]
    refine hstep.trans ?_
    by_cases h : key = k
    · simp [h]
    · simp [h, List.lookup_cons, beq_eq_false_iff_ne.2 h]

lemma of_get?_enter {pairs : List (String × α)} (h : (t.enter pairs).get? key = some a) :
    (key, a) ∈ pairs ∨ t.get? key = some a := by
  rw [get?_enter] at h
  cases hpairs : pairs.reverse.lookup key with
  | none =>
    rw [hpairs, Option.none_or] at h
    exact .inr h
  | some b =>
    rw [hpairs, Option.some_or] at h
    obtain ⟨before, after, hentries, -⟩ := List.lookup_eq_some_iff.1 hpairs
    rw [Option.some.inj h] at hentries
    have hmem : (key, a) ∈ pairs.reverse := by simp [hentries]
    exact .inl (List.mem_reverse.1 hmem)

lemma mem_keys_enter {pairs : List (String × α)} :
    key ∈ (t.enter pairs).keys ↔ key ∈ t.keys ∨ key ∈ pairs.map Prod.fst := by
  induction pairs generalizing t with
  | nil => simp [enter]
  | cons p rest ih =>
    have hstep := ih (t := t.insert p.1 p.2)
    rw [mem_keys_insert] at hstep
    rw [List.map_cons, List.mem_cons, ← or_assoc]
    exact hstep

lemma get?_enterNew (t : Keyed α) (pairs : List (String × α)) (key : String) :
    (t.enterNew pairs).get? key = (t.get? key).or (pairs.lookup key) := by
  induction pairs generalizing t with
  | nil => exact (Option.or_none).symm
  | cons p rest ih =>
    obtain ⟨k, a⟩ := p
    have hstep := ih (if t.contains k then t else t.insert k a)
    refine hstep.trans ?_
    rw [List.lookup_cons]
    by_cases hk : t.contains k = true
    · rw [if_pos hk]
      by_cases h : key = k
      · subst h
        obtain ⟨b, hb⟩ := Option.isSome_iff_exists.1 hk
        simp [hb]
      · simp [beq_eq_false_iff_ne.2 h]
    · rw [if_neg hk, get?_insert]
      by_cases h : key = k
      · subst h
        have hnone : t.get? key = none := by simpa [contains] using hk
        simp [hnone]
      · simp [h, beq_eq_false_iff_ne.2 h]

lemma enterNew_cons {t : Keyed α} {key : String} (h : ¬ t.contains key = true) (a : α)
    (pairs : List (String × α)) :
    t.enterNew ((key, a) :: pairs) = (t.insert key a).enterNew pairs := by
  show (if t.contains key = true then t else t.insert key a).enterNew pairs = _
  rw [if_neg h]

lemma isSome_lookup_iff {pairs : List (String × α)} :
    (pairs.lookup key).isSome = true ↔ key ∈ pairs.map Prod.fst := by
  rw [Option.isSome_iff_ne_none, ne_eq, List.lookup_eq_none_iff, List.mem_map]
  constructor
  · intro h
    by_contra hno
    refine h fun p hp => ?_
    simpa using fun hkey => hno ⟨p, hp, Eq.symm hkey⟩
  · rintro ⟨p, hp, rfl⟩ h
    simpa using h p hp

lemma mem_keys_ofList {pairs : List (String × α)} :
    key ∈ (ofList pairs).keys ↔ key ∈ pairs.map Prod.fst := by
  rw [← contains_iff, contains, ← List.mem_reverse, ← List.map_reverse, ← isSome_lookup_iff]
  have hget := get?_enter empty pairs key
  rw [show (empty : Keyed α).get? key = none from rfl, Option.or_none] at hget
  rw [← hget]
  rfl

/-! ### The entries of a table that is changed -/

lemma eq_of_entries (h : t.entries = t'.entries) : t = t' := by
  cases t
  cases t'
  congr

/-- The entries of a table with values in place of the old ones, and behind them those with keys
that are new. -/
def overridden (old new : List (String × α)) : List (String × α) :=
  (old.map fun e => (e.1, (new.lookup e.1).getD e.2)) ++ new.filter fun e => e.1 ∉ old.map Prod.fst

lemma entries_insert_of_mem (h : key ∈ t.keys) (a : α) :
    (t.insert key a).entries = t.entries.map fun e => (e.1, if e.1 = key then a else e.2) := by
  rw [insert, dif_pos h]
  rfl

lemma entries_insert_of_not_mem (h : key ∉ t.keys) (a : α) :
    (t.insert key a).entries = t.entries ++ [(key, a)] := by
  rw [insert, dif_neg h]
  rfl

lemma map_fst_entries_insert_of_mem (h : key ∈ t.keys) (a : α) :
    (t.insert key a).entries.map Prod.fst = t.entries.map Prod.fst := by
  have hkeys := keys_insert t key a
  rwa [if_pos h] at hkeys

/-- Entering a value first is overriding with it as well. -/
lemma overridden_insert (t : Keyed α) (a : α) {new : List (String × α)}
    (hnew : key ∉ new.map Prod.fst) :
    overridden (t.insert key a).entries new = overridden t.entries ((key, a) :: new) := by
  have hnone : new.lookup key = none := by
    rw [← Option.not_isSome_iff_eq_none, isSome_lookup_iff]
    exact hnew
  have hcons : ∀ {k}, k ≠ key → ((key, a) :: new).lookup k = new.lookup k := fun h => by
    rw [List.lookup_cons, beq_false_of_ne h]
  by_cases h : key ∈ t.keys
  · have hold : ¬ decide ((key, a).1 ∉ t.entries.map Prod.fst) = true := by
      rw [decide_eq_true_iff, not_not]
      exact h
    rw [overridden, overridden, map_fst_entries_insert_of_mem h, entries_insert_of_mem h,
      List.map_map, List.filter_cons, if_neg hold]
    congr 1
    refine List.map_congr_left fun e _ => ?_
    rw [Function.comp_apply]
    by_cases he : e.1 = key
    · rw [if_pos he, he, hnone, List.lookup_cons_self]
      rfl
    · rw [if_neg he, hcons he]
  · have hold : decide ((key, a).1 ∉ t.entries.map Prod.fst) = true := decide_eq_true h
    have hne : ∀ e ∈ t.entries, e.1 ≠ key := fun e he hkey => h (hkey ▸ List.mem_map_of_mem he)
    have hrest : ∀ e ∈ new, e.1 ≠ key := fun e he hkey => hnew (hkey ▸ List.mem_map_of_mem he)
    rw [overridden, overridden, entries_insert_of_not_mem h, List.map_append, List.map_append,
      List.filter_cons, if_pos hold, List.append_assoc]
    congr 1
    · exact List.map_congr_left fun e he => by rw [hcons (hne e he)]
    · rw [List.map_singleton, hnone, List.singleton_append]
      refine congrArg ((key, a) :: ·) (List.filter_congr fun e he => ?_)
      simp [hrest e he]

/-- Entering values with different keys: a key that the table has keeps its place, and the others
come behind it in order. -/
theorem entries_enter {pairs : List (String × α)} (h : (pairs.map Prod.fst).Nodup) :
    (t.enter pairs).entries = overridden t.entries pairs := by
  induction pairs generalizing t with
  | nil => simp [enter, overridden]
  | cons p rest ih =>
    obtain ⟨k, a⟩ := p
    obtain ⟨hk, hrest⟩ := List.nodup_cons.1 h
    refine (ih hrest).trans ?_
    exact overridden_insert t a hk

lemma entries_ofList {pairs : List (String × α)} (h : (pairs.map Prod.fst).Nodup) :
    (ofList pairs).entries = pairs := by
  refine (entries_enter h).trans ?_
  simp [overridden, empty]

/-- Entering the value that a key has changes nothing. -/
lemma insert_eq_self (h : t.get? key = some a) : t.insert key a = t := by
  refine (insert_eq_modify h id).trans ?_
  refine eq_of_entries ((List.map_congr_left fun e _ => ?_).trans (List.map_id _))
  simp

lemma enter_eq_self {pairs : List (String × α)} (h : ∀ p ∈ pairs, t.get? p.1 = some p.2) :
    t.enter pairs = t := by
  induction pairs with
  | nil => rfl
  | cons p rest ih =>
    obtain ⟨hp, hrest⟩ := List.forall_mem_cons.1 h
    have hstep : t.enter (p :: rest) = (t.insert p.1 p.2).enter rest := rfl
    rw [hstep, insert_eq_self hp, ih hrest]

/-- A value that is entered once stays. -/
lemma get?_enter_of_nodup {pairs : List (String × α)} (h : (pairs.map Prod.fst).Nodup)
    (ha : (key, a) ∈ pairs) : (t.enter pairs).get? key = some a := by
  have hreverse : (pairs.reverse.map Prod.fst).Nodup := by
    rwa [List.map_reverse, List.nodup_reverse]
  have hlookup : (⟨pairs.reverse, hreverse⟩ : Keyed α).get? key = some a :=
    get?_eq_some_iff.2 (List.mem_reverse.2 ha)
  rw [get?_enter]
  exact congrArg (Option.or · _) hlookup

/-- Entering values a second time changes nothing. -/
lemma enter_enter {pairs : List (String × α)} (h : (pairs.map Prod.fst).Nodup) :
    (t.enter pairs).enter pairs = t.enter pairs :=
  enter_eq_self fun _ hp => get?_enter_of_nodup h hp

lemma map_insert (f : α → β) (t : Keyed α) (key : String) (a : α) :
    (t.insert key a).map (fun _ => f) = (t.map fun _ => f).insert key (f a) := by
  have hkeys : (t.map fun _ => f).keys = t.keys := keys_map _ t
  by_cases h : key ∈ t.keys
  · refine eq_of_entries ?_
    rw [entries_insert_of_mem (hkeys ▸ h)]
    show (t.insert key a).entries.map _ = (t.entries.map _).map _
    rw [entries_insert_of_mem h, List.map_map, List.map_map]
    refine List.map_congr_left fun e _ => ?_
    simp only [Function.comp_apply]
    split <;> rfl
  · refine eq_of_entries ?_
    rw [entries_insert_of_not_mem (hkeys ▸ h)]
    show (t.insert key a).entries.map _ = t.entries.map _ ++ _
    rw [entries_insert_of_not_mem h, List.map_append]
    rfl

lemma map_enter (f : α → β) (t : Keyed α) (pairs : List (String × α)) :
    (t.enter pairs).map (fun _ => f) =
      (t.map fun _ => f).enter (pairs.map fun p => (p.1, f p.2)) := by
  induction pairs generalizing t with
  | nil => rfl
  | cons p rest ih =>
    refine (ih (t.insert p.1 p.2)).trans ?_
    rw [map_insert]
    rfl

end Keyed
end UmlDraw
