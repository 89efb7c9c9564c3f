/-
# Elements that stand in several regions

An element is put into the open part of a composite state unless it is in this part already; the
parts before are not looked at.  So a state that is named again behind a separator stands in both
regions, and it is laid out and drawn for each of them.

The main statements are

* `Diagram.nodup_members_read_iff`: when a composite state lists each element once;
* `Diagram.nodup_drawingOrder_read`: when each element is drawn once;
* `Diagram.not_nodup_members_again`: a text for which neither holds.
-/
import UmlDraw.Proofs.State.Scope
import UmlDraw.Proofs.State.Shown

namespace UmlDraw
namespace State

/-! ### What the parts hold -/

namespace Nest

/-- Every part holds exactly the elements that were placed in it and belong to the composite
state. -/
structure Holds (n : Nest) (placed : List (Scope × String)) : Prop where
  mem_iff : ∀ k i c, c ∈ (n.contents k).membersIn i ↔
    n.parent? c = some k ∧ (.part k i, c) ∈ placed
  held : ∀ s c, (s, c) ∈ placed → n.parent? c ≠ none
  source : ∀ c k, n.parent? c = some k → ∃ i, (.part k i, c) ∈ placed

/-- The part in which an element is placed, and its code. -/
def locate (n : Nest) (q : Placement) : Scope × String :=
  (.part q.holder (n.openIndex q.holder), q.code)

variable {n : Nest} {placed : List (Scope × String)}

lemma Holds.place (h : n.Holds placed) (q : Placement) :
    (n.apply (.place q)).Holds (placed ++ [n.locate q]) where
  mem_iff := by
    intro k i c
    rw [mem_membersIn_place, h.mem_iff, parent?_place, List.mem_append, List.mem_singleton, locate,
      Prod.mk.injEq, Scope.part.injEq]
    by_cases hc : c = q.code
    · subst hc
      cases hp : n.parent? q.code with
      | none =>
        -- it was not placed before
        have hnew : (Scope.part k i, q.code) ∉ placed := fun hmem => h.held _ _ hmem hp
        simp only [hnew, Option.none_or, Option.some.injEq, if_true, reduceCtorEq, and_true,
          or_false, false_or, and_false]
        constructor
        · rintro ⟨rfl, rfl⟩
          exact ⟨rfl, rfl, rfl⟩
        · rintro ⟨rfl, -, rfl⟩
          exact ⟨rfl, rfl⟩
      | some p =>
        simp only [Option.some_or, Option.some.injEq, if_true, reduceCtorEq, and_true, true_and,
          false_or]
        constructor
        · rintro (⟨rfl, hmem⟩ | ⟨rfl, rfl, rfl⟩)
          · exact ⟨rfl, .inl hmem⟩
          · exact ⟨rfl, .inr ⟨rfl, rfl⟩⟩
        · rintro ⟨rfl, hmem | ⟨rfl, rfl⟩⟩
          · exact .inl ⟨rfl, hmem⟩
          · exact .inr ⟨rfl, rfl, rfl⟩
    · simp [hc]
  held := by
    intro s c hmem
    rw [parent?_place]
    split
    · cases n.parent? c <;> simp
    · next hc =>
      rcases List.mem_append.1 hmem with hmem | hmem
      · exact h.held s c hmem
      · exact absurd (Prod.mk.inj (List.mem_singleton.1 hmem)).2 hc
  source := by
    intro c k hk
    rw [parent?_place] at hk
    have hold : n.parent? c = some k → ∃ i, (.part k i, c) ∈ placed ++ [n.locate q] := by
      intro hk
      obtain ⟨i, hi⟩ := h.source c k hk
      exact ⟨i, List.mem_append_left _ hi⟩
    split at hk
    · next hc =>
      cases hp : n.parent? c with
      | none =>
        rw [hp, Option.none_or, Option.some.injEq] at hk
        refine ⟨n.openIndex q.holder, List.mem_append_right _ ?_⟩
        rw [locate, hk, hc]
        exact List.mem_singleton_self _
      | some p =>
        rw [hp, Option.some_or] at hk
        exact hold (hp.trans hk)
    · exact hold hk

lemma Holds.places (h : n.Holds placed) (qs : List Placement) :
    (n.run (qs.map .place)).Holds (placed ++ qs.map n.locate) := by
  induction qs generalizing n placed with
  | nil =>
    simp only [List.map_nil, List.append_nil]
    exact h
  | cons q rest ih =>
    have hrest := ih (h.place q)
    have hlocate : (n.apply (.place q)).locate = n.locate := by
      funext q'
      rw [locate, locate, openIndex_place]
    rw [hlocate, List.append_assoc] at hrest
    exact hrest

/-- Other changes leave the members of all parts as they are. -/
lemma Holds.of_eq {n' : Nest} (h : n.Holds placed) (hparent : n'.parent? = n.parent?)
    (hmembers : ∀ k i, (n'.contents k).membersIn i = (n.contents k).membersIn i) :
    n'.Holds placed where
  mem_iff := fun k i c => by rw [hmembers, hparent]; exact h.mem_iff k i c
  held := fun s c hmem => by rw [hparent]; exact h.held s c hmem
  source := fun c k hk => h.source c k (by rw [← hparent]; exact hk)

end Nest

namespace Reader

variable {r : Reader}

/-- The parts in which a line places elements, with these elements, in order. -/
def located (r : Reader) (line : SourceLine) : List (Scope × String) :=
  (r.placements line).map r.diagram.nest.locate

/-- The parts in which lines place elements, with these elements, in order. -/
def allLocated : Reader → List SourceLine → List (Scope × String)
  | _, [] => []
  | r, line :: rest => r.located line ++ allLocated (r.step line) rest

lemma holds_step {placed : List (Scope × String)} (hr : r.Sound)
    (h : r.diagram.nest.Holds placed) (line : SourceLine) :
    (r.step line).diagram.nest.Holds (placed ++ r.located line) := by
  have hplaces := h.places (r.placements line)
  rw [nest_step hr]
  cases hw : r.writing? line with
  | none =>
    rcases changes_of_writing?_eq_none hw with hchanges | ⟨p, s, hchanges⟩ <;> rw [hchanges]
    · exact hplaces
    · rw [Nest.run_append]
      exact hplaces.of_eq rfl fun k i => Nest.membersIn_divide _ p s k i
  | some w =>
    rw [(changes_of_writing?_eq_some hw).2, Nest.run_append]
    exact hplaces.of_eq (Nest.parent?_connect _ _ _) fun k i => Nest.membersIn_connect _ _ _ k i

lemma holds_foldl {placed : List (Scope × String)} (hr : r.Sound)
    (h : r.diagram.nest.Holds placed) (lines : List SourceLine) :
    (lines.foldl step r).diagram.nest.Holds (placed ++ r.allLocated lines) := by
  induction lines generalizing r placed with
  | nil => rwa [allLocated, List.append_nil]
  | cons line rest ih =>
    have hrest := ih (builds_step hr line).2 (holds_step hr h line)
    rwa [List.append_assoc] at hrest

end Reader

namespace Contents

lemma members_eq (cs : Contents) :
    cs.members = (List.range cs.parts.length).flatMap cs.membersIn := by
  have hparts : cs.members = cs.parts.flatMap Part.members := by
    cases cs with
    | direct ms ts => simp [members, parts, closed, opened]
    | concurrent first middle last =>
      simp [members, parts, closed, opened, Region.part, List.flatMap_map]
  rw [hparts, membersIn, flatMap_inPart]

lemma IsDistinct.nodup_membersIn {cs : Contents} (h : cs.IsDistinct) (i : Nat) :
    (cs.membersIn i).Nodup := by
  have hparts : ∀ p ∈ cs.parts, p.members.Nodup := by
    cases cs with
    | direct ms ts =>
      intro p hp
      rw [List.mem_singleton.1 (show p ∈ [Part.mk ms ts] from hp)]
      exact h
    | concurrent first middle last =>
      intro p hp
      have hp : p ∈ (first :: middle ++ [last]).map Region.part := by
        simpa [parts, closed, opened] using hp
      obtain ⟨R, hR, rfl⟩ := List.mem_map.1 hp
      exact h R hR
  rw [membersIn, inPart]
  cases hget : cs.parts[i]? with
  | none => exact List.nodup_nil
  | some p => exact hparts p (List.mem_of_getElem? hget)

/-- The contents list every element once if no two parts share one. -/
lemma IsDistinct.nodup_members_iff {cs : Contents} (h : cs.IsDistinct) :
    cs.members.Nodup ↔ ∀ i j c, c ∈ cs.membersIn i → c ∈ cs.membersIn j → i = j := by
  have hlt : ∀ {i c}, c ∈ cs.membersIn i → i < cs.parts.length := by
    intro i c hc
    by_contra hge
    rw [membersIn, inPart, List.getElem?_eq_none (Nat.le_of_not_lt hge)] at hc
    cases hc
  rw [members_eq, List.nodup_flatMap]
  constructor
  · rintro ⟨-, hdisjoint⟩ i j c hi hj
    have hlt' : ∀ {i j}, c ∈ cs.membersIn i → c ∈ cs.membersIn j → ¬ i < j := by
      intro i j hi hj hij
      have h := List.pairwise_iff_getElem.1 hdisjoint i j (by simpa using hlt hi)
        (by simpa using hlt hj) hij
      rw [List.getElem_range, List.getElem_range] at h
      exact h hi hj
    exact Nat.le_antisymm (Nat.le_of_not_lt (hlt' hj hi)) (Nat.le_of_not_lt (hlt' hi hj))
  · intro hshare
    refine ⟨fun i _ => h.nodup_membersIn i, List.nodup_range.imp fun hne c hi hj => ?_⟩
    exact hne (hshare _ _ c hi hj)

end Contents

/-! ### What a layout repeats -/

namespace Diagram

variable {d : Diagram} {e : Element}

/-- The elements of a list with its inside lie in one of the list. -/
lemma inside_of_mem_elementsIn (hd : d.Consistent) {n : Nat} {codes : List String}
    (he : e ∈ d.elementsIn n codes) : ∃ k ∈ codes, Inside d.parent? e.code k := by
  induction n generalizing codes with
  | zero => cases he
  | succ n ih =>
    obtain ⟨k, hk, p, hp, rfl | he⟩ := mem_elementsIn_succ_iff.1 he
    · rw [hd.code k e hp]
      exact ⟨k, hk, .refl⟩
    · obtain ⟨c, hc, hinside⟩ := ih he
      rw [← membersOf_of_get? hp, hd.mem_iff] at hc
      exact ⟨k, hk, hinside.tail hc⟩

/-- Nothing lies in two elements with the same parent. -/
lemma eq_of_inside {parent : String → Option String} {c k k' : String} (hk : Rooted parent k)
    (hk' : Rooted parent k') (hparent : parent k = parent k') (h : Inside parent c k)
    (h' : Inside parent c k') : k = k' := by
  have hin : ∀ {k k'}, Rooted parent k' → parent k = parent k' → Inside parent k k' → k = k' := by
    intro k k' hk' hparent h
    rcases Relation.ReflTransGen.cases_head h with heq | ⟨q, hq, hqk⟩
    · exact heq
    · exact absurd hqk (hk'.not_inside (hparent ▸ hq))
  have hunique : Relator.RightUnique fun c p => parent c = some p := by
    intro c p p' hp hp'
    exact Option.some.inj (hp.symm.trans hp')
  rcases Relation.ReflTransGen.total_of_right_unique hunique h h' with hkk | hkk
  · exact hin hk' hparent hkk
  · exact (hin hk hparent.symm hkk).symm

/-- If no composite state lists an element twice, neither does the list with the inside of different
elements that have the same parent. -/
lemma nodup_elementsIn (hd : d.Consistent)
    (hmembers : ∀ k e, d.elements.get? k = some e → e.contents.members.Nodup) {n : Nat}
    {codes : List String} {q : Option String} (hcodes : codes.Nodup)
    (hparent : ∀ k ∈ codes, d.parent? k = q) (hrooted : ∀ k ∈ codes, Rooted d.parent? k) :
    (d.elementsIn n codes).Nodup := by
  induction n generalizing codes q with
  | zero => exact List.nodup_nil
  | succ n ih =>
    have hwithin : ∀ {k e f}, d.elements.get? k = some e →
        f ∈ e :: d.elementsIn n e.contents.members → Inside d.parent? f.code k := by
      intro k e f he hf
      have hmem : f ∈ d.elementsIn (n + 1) [k] :=
        mem_elementsIn_succ_iff.2 ⟨k, List.mem_singleton_self k, e, he, List.mem_cons.1 hf⟩
      obtain ⟨k', hk', hinside⟩ := inside_of_mem_elementsIn hd hmem
      rwa [List.mem_singleton.1 hk'] at hinside
    rw [elementsIn, List.nodup_flatMap]
    constructor
    · intro e he
      obtain ⟨k, hk, hget⟩ := List.mem_filterMap.1 he
      have hinside : ∀ c ∈ e.contents.members, d.parent? c = some k := by
        intro c hc
        rwa [← membersOf_of_get? hget, hd.mem_iff] at hc
      have hroot : ∀ c ∈ e.contents.members, Rooted d.parent? c := fun c hc =>
        .inside (hinside c hc) (hrooted k hk)
      refine List.nodup_cons.2 ⟨fun hmem => ?_, ih (hmembers k e hget) hinside hroot⟩
      -- the element would lie in one of its own members
      obtain ⟨c, hc, hring⟩ := inside_of_mem_elementsIn hd hmem
      rw [hd.code k e hget] at hring
      exact (hroot c hc).not_inside (hinside c hc) hring
    · refine List.pairwise_filterMap.2 (hcodes.imp_of_mem fun {k k'} hk hk' hne => ?_)
      intro e he e' he' f hf hf'
      refine hne (eq_of_inside (hrooted k hk) (hrooted k' hk') ?_ (hwithin he hf) (hwithin he' hf'))
      rw [hparent k hk, hparent k' hk']

lemma nodup_roots (d : Diagram) : d.roots.Nodup :=
  List.Nodup.sublist (List.filter_sublist.map _) d.elements.nodup

/-- If no composite state lists an element twice, every element is drawn once. -/
lemma nodup_drawingOrder (hd : d.Consistent)
    (hmembers : ∀ k e, d.elements.get? k = some e → e.contents.members.Nodup) (x y : Rat) :
    ((drawingOrder (d.layout x y).shapes).map Element.code).Nodup := by
  have hroots : ∀ k ∈ d.roots, d.parent? k = none := fun k hk => (mem_roots_iff.1 hk).2
  have hshapes : ((d.layout x y).shapes.map Placed.element).Nodup := by
    rw [map_element_shapes]
    exact nodup_elementsIn hd hmembers (nodup_roots d) hroots fun k hk => .top (hroots k hk)
  have hget : ∀ e ∈ drawingOrder (d.layout x y).shapes, d.elements.get? e.code = some e := by
    intro e he
    exact ((mem_map_element_shapes_iff hd x y).1 (mem_drawingOrder.1 he)).1
  have horder : (drawingOrder (d.layout x y).shapes).Nodup :=
    (List.filter_append_perm _ _).nodup_iff.2 hshapes
  refine horder.map_on fun e he e' he' hcode => ?_
  have h := hget e he
  rw [hcode, hget e' he'] at h
  exact (Option.some.inj h).symm

/-! ### Texts -/

/-- The parts in which a text places elements, with these elements, in order. -/
def located (text : String) : List (Scope × String) :=
  Reader.allLocated {} (Source.lines text)

/-- An element is placed in one part of its composite state only. -/
def StaysInPart (text c : String) : Prop :=
  ∀ k i j, (read text).parent? c = some k → (.part k i, c) ∈ located text →
    (.part k j, c) ∈ located text → i = j

lemma holds_read (text : String) : (read text).nest.Holds (located text) := by
  have hstart : (({} : Reader).diagram.nest).Holds [] := by
    refine ⟨fun k i c => ?_, by simp, fun c k hk => by cases hk⟩
    have hmembers : (({} : Reader).diagram.nest.contents k).membersIn i = [] :=
      Contents.inPart_empty rfl i
    simp [hmembers]
  exact Reader.holds_foldl Reader.sound_start hstart _

lemma nodup_members_read_iff {text k : String} (he : (read text).elements.get? k = some e) :
    e.contents.members.Nodup ↔ ∀ c ∈ e.contents.members, StaysInPart text c := by
  have hdistinct : e.contents.IsDistinct := distinct_read text k e he
  have hmem : ∀ i c, c ∈ e.contents.membersIn i ↔
      (read text).parent? c = some k ∧ (.part k i, c) ∈ located text := by
    intro i c
    rw [← contentsOf_of_get? he]
    exact (holds_read text).mem_iff k i c
  have hparent : ∀ c, c ∈ e.contents.members ↔ (read text).parent? c = some k := by
    intro c
    rw [← membersOf_of_get? he]
    exact (consistent_read text).mem_iff k c
  rw [hdistinct.nodup_members_iff]
  constructor
  · intro h c hc k' i j hk' hi hj
    obtain rfl : k' = k := Option.some.inj (hk'.symm.trans ((hparent c).1 hc))
    exact h i j c ((hmem i c).2 ⟨hk', hi⟩) ((hmem j c).2 ⟨hk', hj⟩)
  · intro h i j c hi hj
    obtain ⟨hk, hi⟩ := (hmem i c).1 hi
    exact h c ((hparent c).2 hk) k i j hk hi ((hmem j c).1 hj).2

/-- In the diagram of a text a composite state lists each element once if and only if none of them
is placed in two of its parts.  If this is so in the whole text, every element is drawn once. -/
theorem repeated_read (text : String) :
    (∀ k e, (read text).elements.get? k = some e →
      (e.contents.members.Nodup ↔ ∀ c ∈ e.contents.members, StaysInPart text c)) ∧
    ((∀ c, StaysInPart text c) → ∀ x y,
      ((drawingOrder ((read text).layout x y).shapes).map Element.code).Nodup) := by
  refine ⟨fun k e he => nodup_members_read_iff he, fun h x y => ?_⟩
  refine nodup_drawingOrder (consistent_read text) (fun k e he => ?_) x y
  exact (nodup_members_read_iff he).2 fun c _ => h c

/-- Two regions without a common state. -/
theorem repeated_read_apart :
    ((drawingOrder ((read "state P \x7b\nA --> B\n--\nC --> D\n\x7d").layout 40 40).shapes).map
      Element.code).Nodup := by
  have hlocated : located "state P \x7b\nA --> B\n--\nC --> D\n\x7d" =
      [(.part "P" 0, "A"), (.part "P" 0, "B"), (.part "P" 1, "C"), (.part "P" 1, "D")] := rfl
  refine (repeated_read _).2 (fun c k i j _ hi hj => ?_) 40 40
  rw [hlocated] at hi hj
  simp only [List.mem_cons, Prod.mk.injEq, Scope.part.injEq, List.not_mem_nil, or_false] at hi hj
  rcases hi with ⟨⟨-, rfl⟩, rfl⟩ | ⟨⟨-, rfl⟩, rfl⟩ | ⟨⟨-, rfl⟩, rfl⟩ | ⟨⟨-, rfl⟩, rfl⟩ <;> simp_all

/-- A state that is named again behind a separator stands in both regions and is drawn twice. -/
theorem not_nodup_members_again :
    ∃ e, (read "state P \x7b\nA --> B\n--\nA --> C\n\x7d").elements.get? "P" = some e ∧
      e.contents.members = ["A", "B", "A", "C"] ∧ ¬ e.contents.members.Nodup ∧
      (drawingOrder ((read "state P \x7b\nA --> B\n--\nA --> C\n\x7d").layout 40 40).shapes).map
        Element.code = ["P", "A", "B", "A", "C"] := by
  refine ⟨_, rfl, rfl, by decide, ?_⟩
  rw [drawingOrder, map_element_shapes]
  rfl

end Diagram
end State
end UmlDraw
