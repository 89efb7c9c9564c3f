/-
# Placing elements in composite states

A line of a state diagram changes the table of elements in small ways: an element is made, something
is written about an element, or an element is *placed* in a composite state.  Only a placement
touches the nesting of the elements, which is kept twice, as the members of a composite state and as
the parent of an element.  `Builds` says which placements lead from one diagram to another, and all
that is known of the nesting follows from it.

The main statements are

* `Diagram.Builds.consistent`: members and parents agree;
* `Diagram.Builds.parent?`: an element belongs to the composite state in which it was placed first;
* `Diagram.Builds.first`: the first region of a composite state never changes.
-/
import UmlDraw.Proofs.Data.Keyed
import UmlDraw.State.Reader

namespace UmlDraw

namespace State

/-! ### The contents of a composite state -/

namespace Contents

@[simp]
lemma mem_members_addMember {cs : Contents} {code other : String} :
    other ∈ (cs.addMember code).members ↔ other ∈ cs.members ∨ other = code := by
  -- a code that is there already is not added again
  have hadd : ∀ ms : List String,
      other ∈ (if ms.contains code then ms else ms ++ [code]) ↔ other ∈ ms ∨ other = code := by
    intro ms
    split
    · next h =>
      have hmem : code ∈ ms := by simpa using h
      constructor
      · exact Or.inl
      · rintro (h' | rfl)
        · exact h'
        · exact hmem
    · simp
  cases cs with
  | direct ms ts => exact hadd ms
  | concurrent first middle last =>
    simp only [addMember, members, List.flatMap_append, List.flatMap_singleton, List.mem_append,
      hadd, or_assoc]

@[simp]
lemma members_addTransition (cs : Contents) (t : Transition) :
    (cs.addTransition t).members = cs.members := by
  cases cs with
  | direct ms ts => rfl
  | concurrent first middle last => simp [addTransition, members]

@[simp]
lemma members_divide (cs : Contents) (s : Separator) : (cs.divide s).members = cs.members := by
  cases cs with
  | direct ms ts => simp [divide, members]
  | concurrent first middle last => simp [divide, members]

/-- The first region, if there are regions. -/
def first? : Contents → Option Region
  | direct _ _ => none
  | concurrent first _ _ => some first

lemma first?_eq_head? (cs : Contents) : cs.first? = cs.regions.head? := by
  cases cs with
  | direct ms ts => rfl
  | concurrent first middle last => rfl

lemma first?_addMember (cs : Contents) (code : String) :
    (cs.addMember code).first? = cs.first? := by
  cases cs <;> rfl

lemma first?_addTransition (cs : Contents) (t : Transition) :
    (cs.addTransition t).first? = cs.first? := by
  cases cs <;> rfl

lemma first?_divide {cs : Contents} {R : Region} (h : cs.first? = some R) (s : Separator) :
    (cs.divide s).first? = some R := by
  cases cs with
  | direct ms ts => cases h
  | concurrent first middle last => exact h

end Contents

/-- An element after something was written about it: its place in the nesting is the same. -/
structure Element.Keeps (e e' : Element) : Prop where
  code : e'.code = e.code
  parent : e'.parent = e.parent
  members : e'.contents.members = e.contents.members
  first : ∀ R, e.contents.first? = some R → e'.contents.first? = some R

namespace Element

lemma Keeps.refl (e : Element) : e.Keeps e :=
  ⟨rfl, rfl, rfl, fun _ h => h⟩

lemma Keeps.trans {e e' e'' : Element} (h : e.Keeps e') (h' : e'.Keeps e'') : e.Keeps e'' where
  code := h'.code.trans h.code
  parent := h'.parent.trans h.parent
  members := h'.members.trans h.members
  first := fun R hR => h'.first R (h.first R hR)

lemma keeps_addStereotype (e : Element) (s : String) : e.Keeps (e.addStereotype s) := by
  unfold addStereotype
  split
  · exact .refl e
  · exact ⟨rfl, rfl, rfl, fun _ h => h⟩

end Element

namespace Diagram

/-! ### The nesting of a diagram -/

/-- The composite state that holds an element. -/
def parent? (d : Diagram) (code : String) : Option String :=
  (d.elements.get? code).bind Element.parent

/-- The codes of the elements in an element. -/
def membersOf (d : Diagram) (code : String) : List String :=
  ((d.elements.get? code).map fun e => e.contents.members).getD []

/-- The first region of an element, if it has regions. -/
def firstRegion? (d : Diagram) (code : String) : Option Region :=
  (d.elements.get? code).bind fun e => e.contents.first?

/-- Every element stands under its own code, a composite state holds exactly the elements that have
it as their parent, and no element holds itself. -/
structure Consistent (d : Diagram) : Prop where
  code : ∀ k e, d.elements.get? k = some e → e.code = k
  mem_iff : ∀ k c, c ∈ d.membersOf k ↔ d.parent? c = some k
  ne_self : ∀ c, d.parent? c ≠ some c

lemma parent?_of_get? {d : Diagram} {code : String} {e : Element}
    (h : d.elements.get? code = some e) : d.parent? code = e.parent := by
  rw [parent?, h, Option.bind_some]

lemma membersOf_of_get? {d : Diagram} {code : String} {e : Element}
    (h : d.elements.get? code = some e) : d.membersOf code = e.contents.members := by
  rw [membersOf, h, Option.map_some, Option.getD_some]

lemma mem_keys_of_parent? {d : Diagram} {code parent : String}
    (h : d.parent? code = some parent) : code ∈ d.elements.keys := by
  obtain ⟨e, he, -⟩ := Option.bind_eq_some_iff.1 h
  exact Keyed.mem_keys_iff.2 ⟨e, he⟩

/-- The second diagram has the elements of the first one, nested in the same way, and perhaps
further ones that are not nested. -/
structure Keeps (d d' : Diagram) : Prop where
  keys : d.elements.keys ⊆ d'.elements.keys
  code : (∀ k e, d.elements.get? k = some e → e.code = k) →
    ∀ k e, d'.elements.get? k = some e → e.code = k
  parent : ∀ c, d'.parent? c = d.parent? c
  members : ∀ c, d'.membersOf c = d.membersOf c
  first : ∀ c R, d.firstRegion? c = some R → d'.firstRegion? c = some R

lemma Keeps.trans {d d' d'' : Diagram} (h : d.Keeps d') (h' : d'.Keeps d'') : d.Keeps d'' where
  keys := fun _ hk => h'.keys (h.keys hk)
  code := fun hd => h'.code (h.code hd)
  parent := fun c => (h'.parent c).trans (h.parent c)
  members := fun c => (h'.members c).trans (h.members c)
  first := fun c R hR => h'.first c R (h.first c R hR)

lemma keeps_of_elements_eq {d d' : Diagram} (h : d'.elements = d.elements) : d.Keeps d' where
  keys := by rw [h]; exact List.Subset.refl _
  code := by rw [h]; exact id
  parent := fun c => by rw [parent?, parent?, h]
  members := fun c => by rw [membersOf, membersOf, h]
  first := fun c R => by rw [firstRegion?, firstRegion?, h]; exact id

lemma keeps_change (d : Diagram) (code : String) {f : Element → Element}
    (hf : ∀ e : Element, e.Keeps (f e)) : d.Keeps (d.change code f) := by
  have hget : ∀ k, (d.change code f).elements.get? k =
      if k = code then (d.elements.get? k).map f else d.elements.get? k :=
    fun k => Keyed.get?_modify _ _ _ _
  constructor
  · exact fun k hk => by rwa [change, Keyed.keys_modify]
  · intro hd k e he
    rw [hget] at he
    split at he
    · obtain ⟨e₀, he₀, rfl⟩ := Option.map_eq_some_iff.1 he
      rw [(hf e₀).code]
      exact hd k e₀ he₀
    · exact hd k e he
  · intro c
    rw [parent?, parent?, hget]
    split
    · cases d.elements.get? c with
      | none => rfl
      | some e => exact (hf e).parent
    · rfl
  · intro c
    rw [membersOf, membersOf, hget]
    split
    · cases d.elements.get? c with
      | none => rfl
      | some e => exact (hf e).members
    · rfl
  · intro c R hR
    rw [firstRegion?, hget]
    split
    · obtain ⟨e, he, hfirst⟩ := Option.bind_eq_some_iff.1 hR
      rw [he]
      exact (hf e).first R hfirst
    · exact hR

lemma keeps_insert (d : Diagram) {code : String} {e : Element} (hcode : e.code = code)
    (hparent : e.parent = none) (hcontents : e.contents = .empty)
    (hnew : d.elements.get? code = none) :
    d.Keeps { d with elements := d.elements.insert code e } := by
  constructor
  · intro k hk
    exact Keyed.mem_keys_insert.2 (Or.inl hk)
  · intro hd k e' he'
    rw [Keyed.get?_insert] at he'
    split at he'
    · next hk =>
      obtain rfl := Option.some.inj he'
      exact hcode.trans hk.symm
    · exact hd k e' he'
  · intro c
    rw [parent?, parent?, Keyed.get?_insert]
    split
    · next hc => rw [hc, hnew]; exact hparent
    · rfl
  · intro c
    rw [membersOf, membersOf, Keyed.get?_insert]
    split
    · next hc => rw [hc, hnew, Option.map_some, hcontents]; rfl
    · rfl
  · intro c R hR
    rw [firstRegion?, Keyed.get?_insert]
    split
    · next hc =>
      rw [firstRegion?, hc, hnew] at hR
      cases hR
    · exact hR

lemma keeps_mention (d : Diagram) (code display : String) (kind : ElementKind) :
    d.Keeps (d.mention code display kind) := by
  unfold mention
  split
  · exact keeps_change d code fun e => ⟨rfl, rfl, rfl, fun _ h => h⟩
  · next h =>
    refine keeps_insert d rfl rfl rfl ?_
    rw [Keyed.get?_eq_none_iff, ← Keyed.contains_iff]
    exact h

lemma mem_keys_mention (d : Diagram) (code display : String) (kind : ElementKind) :
    code ∈ (d.mention code display kind).elements.keys := by
  unfold mention
  split
  · next h => rw [Keyed.keys_modify]; exact Keyed.contains_iff.1 h
  · exact Keyed.mem_keys_insert.2 (Or.inr rfl)

end Diagram

/-! ### Placements -/

/-- An element is to stand in a composite state. -/
structure Placement where
  /-- The code of the composite state. -/
  holder : String
  /-- The code of the element. -/
  code : String
deriving DecidableEq, Repr

namespace Placement

/-- The composite state of the first placement of an element. -/
def holderOf (qs : List Placement) (code : String) : Option String :=
  (qs.find? fun q => q.code == code).map holder

lemma holderOf_nil (code : String) : holderOf [] code = none := rfl

lemma holderOf_singleton (q : Placement) (code : String) :
    holderOf [q] code = if code = q.code then some q.holder else none := by
  by_cases h : code = q.code
  · simp [holderOf, h]
  · simp [holderOf, h, Ne.symm h]

lemma holderOf_append (qs qs' : List Placement) (code : String) :
    holderOf (qs ++ qs') code = (holderOf qs code).or (holderOf qs' code) := by
  simp [holderOf, List.find?_append, Option.map_or]

end Placement

namespace Diagram

@[simp]
lemma keys_adopt (d : Diagram) (parent code : String) :
    (d.adopt parent code).elements.keys = d.elements.keys := by
  unfold adopt
  split
  · rfl
  · split
    · simp only [change, Keyed.keys_modify]
    · rfl

lemma transitions_adopt (d : Diagram) (parent code : String) :
    (d.adopt parent code).transitions = d.transitions := by
  unfold adopt
  split
  · rfl
  · split <;> rfl

section Adopt

variable {d : Diagram} {parent code : String}

/-- An element after another one was placed in a composite state: the element has it as its parent
now, and the composite state has it as a member, unless another composite state holds it. -/
lemma get?_adopt (hcode : code ∈ d.elements.keys) (hne : code ≠ parent) (k : String) :
    (d.adopt parent code).elements.get? k =
      if d.parent? code = none ∨ d.parent? code = some parent then
        if k = code then (d.elements.get? k).map fun e => { e with parent := some parent }
        else if k = parent then
          (d.elements.get? k).map fun e => { e with contents := e.contents.addMember code }
        else d.elements.get? k
      else d.elements.get? k := by
  obtain ⟨e, he⟩ := Keyed.mem_keys_iff.1 hcode
  have hfree : (e.parent.isNone || e.parent == some parent) = true ↔
      d.parent? code = none ∨ d.parent? code = some parent := by
    rw [parent?_of_get? he]
    simp
  simp only [adopt, he, hfree]
  split
  · simp only [change, Keyed.get?_modify]
    by_cases hk : k = code
    · rw [if_neg (hk ▸ hne), if_pos hk, if_pos hk]
    · rw [if_neg hk, if_neg hk]
  · rfl

lemma parent?_adopt (hcode : code ∈ d.elements.keys) (hne : code ≠ parent) (c : String) :
    (d.adopt parent code).parent? c =
      if c = code then (d.parent? c).or (some parent) else d.parent? c := by
  obtain ⟨e, he⟩ := Keyed.mem_keys_iff.1 hcode
  have hp := parent?_of_get? he
  rw [parent?, get?_adopt hcode hne]
  by_cases hc : c = code
  · subst hc
    rw [if_pos rfl, if_pos rfl, hp, he]
    cases hparent : e.parent with
    | none => rfl
    | some q =>
      by_cases hq : q = parent
      · simp [hq]
      · simp [hq, hparent]
  · rw [if_neg hc, if_neg hc]
    -- the composite state gets a member and keeps its own parent
    split
    · split
      · rw [parent?]
        cases d.elements.get? c <;> rfl
      · rfl
    · rfl

lemma mem_membersOf_adopt (hparent : parent ∈ d.elements.keys) (hcode : code ∈ d.elements.keys)
    (hne : code ≠ parent) (k c : String) :
    c ∈ (d.adopt parent code).membersOf k ↔
      c ∈ d.membersOf k ∨
        (k = parent ∧ c = code ∧ (d.parent? code = none ∨ d.parent? code = some parent)) := by
  rw [membersOf, get?_adopt hcode hne]
  split
  · next hfree =>
    by_cases hk : k = code
    · have hkp : k ≠ parent := hk ▸ hne
      rw [if_pos hk, membersOf]
      cases d.elements.get? k <;> simp [hkp]
    · rw [if_neg hk]
      split
      · next hkp =>
        obtain ⟨e, he⟩ := Keyed.mem_keys_iff.1 hparent
        rw [hkp, membersOf, he]
        simp [hfree]
      · next hkp => simp [hkp, membersOf]
  · next hfree => simp [hfree, membersOf]

lemma firstRegion?_adopt (hcode : code ∈ d.elements.keys) (hne : code ≠ parent) (k : String) :
    (d.adopt parent code).firstRegion? k = d.firstRegion? k := by
  rw [firstRegion?, firstRegion?, get?_adopt hcode hne]
  split
  · split
    · cases d.elements.get? k <;> rfl
    · split
      · cases d.elements.get? k with
        | none => rfl
        | some e => exact Contents.first?_addMember _ _
      · rfl
  · rfl

lemma code_adopt (hcode : code ∈ d.elements.keys) (hne : code ≠ parent)
    (hd : ∀ k e, d.elements.get? k = some e → e.code = k) (k : String) (e : Element)
    (he : (d.adopt parent code).elements.get? k = some e) : e.code = k := by
  rw [get?_adopt hcode hne] at he
  split at he
  · split at he
    · obtain ⟨e₀, he₀, rfl⟩ := Option.map_eq_some_iff.1 he
      exact hd k e₀ he₀
    · split at he
      · obtain ⟨e₀, he₀, rfl⟩ := Option.map_eq_some_iff.1 he
        exact hd k e₀ he₀
      · exact hd k e he
  · exact hd k e he

lemma Consistent.adopt (hd : d.Consistent) (hparent : parent ∈ d.elements.keys)
    (hcode : code ∈ d.elements.keys) (hne : code ≠ parent) : (d.adopt parent code).Consistent where
  code := code_adopt hcode hne hd.code
  mem_iff := by
    intro k c
    rw [mem_membersOf_adopt hparent hcode hne, parent?_adopt hcode hne, hd.mem_iff]
    by_cases hc : c = code
    · subst hc
      cases d.parent? c with
      | none => simp [eq_comm]
      | some q =>
        simp only [Option.some_or, Option.some.injEq, if_true, reduceCtorEq, false_or, true_and]
        constructor
        · rintro (h | ⟨rfl, h⟩)
          · exact h
          · exact h
        · exact Or.inl
    · simp [hc]
  ne_self := by
    intro c
    rw [parent?_adopt hcode hne]
    split
    · next hc =>
      cases hq : d.parent? c with
      | none => simpa [hc] using hne.symm
      | some q => simpa [hq] using hd.ne_self c
    · exact hd.ne_self c

end Adopt

lemma Consistent.keeps {d d' : Diagram} (hd : d.Consistent) (h : d.Keeps d') : d'.Consistent where
  code := h.code hd.code
  mem_iff := fun k c => by rw [h.members, h.parent]; exact hd.mem_iff k c
  ne_self := fun c => by rw [h.parent]; exact hd.ne_self c

/-- The second diagram comes from the first one by the given placements, in order, and by changes
that leave the nesting as it is. -/
inductive Builds : Diagram → List Placement → Diagram → Prop
  | keep {d d' : Diagram} (h : d.Keeps d') : Builds d [] d'
  | place {d : Diagram} {q : Placement} (holder : q.holder ∈ d.elements.keys)
      (code : q.code ∈ d.elements.keys) (ne : q.code ≠ q.holder) :
      Builds d [q] (d.adopt q.holder q.code)
  | trans {d d' d'' : Diagram} {qs qs' : List Placement} (h : Builds d qs d')
      (h' : Builds d' qs' d'') : Builds d (qs ++ qs') d''

namespace Builds

variable {d d' d'' : Diagram} {qs : List Placement}

lemma refl (d : Diagram) : Builds d [] d :=
  keep (keeps_of_elements_eq rfl)

lemma trans_keep (h : Builds d qs d') (h' : d'.Keeps d'') : Builds d qs d'' := by
  have := h.trans (keep h')
  rwa [List.append_nil] at this

lemma keys (h : Builds d qs d') : d.elements.keys ⊆ d'.elements.keys := by
  induction h with
  | keep h => exact h.keys
  | place => rw [keys_adopt]; exact List.Subset.refl _
  | trans _ _ ih ih' => exact fun _ hk => ih' (ih hk)

/-- Members and parents go on to agree. -/
lemma consistent (h : Builds d qs d') (hd : d.Consistent) : d'.Consistent := by
  induction h with
  | keep h => exact hd.keeps h
  | place holder code ne => exact hd.adopt holder code ne
  | trans _ _ ih ih' => exact ih' (ih hd)

lemma first (h : Builds d qs d') {c : String} {R : Region} (hR : d.firstRegion? c = some R) :
    d'.firstRegion? c = some R := by
  induction h with
  | keep h => exact h.first c R hR
  | place holder code ne => rwa [firstRegion?_adopt code ne]
  | trans _ _ ih ih' => exact ih' (ih hR)

/-- An element belongs to the composite state in which it was placed first. -/
lemma parent? (h : Builds d qs d') (c : String) :
    d'.parent? c = (d.parent? c).or (Placement.holderOf qs c) := by
  induction h with
  | keep h => rw [h.parent, Placement.holderOf_nil, Option.or_none]
  | @place d q holder code ne =>
    rw [parent?_adopt code ne, Placement.holderOf_singleton]
    by_cases hc : c = q.code
    · rw [if_pos hc, if_pos hc]
    · rw [if_neg hc, if_neg hc, Option.or_none]
  | trans _ _ ih ih' => rw [ih', ih, Placement.holderOf_append, Option.or_assoc]

end Builds
end Diagram

end State
end UmlDraw
