/-
# Scopes of a state diagram

A line of a state diagram is written in a *scope*: at the top level, or in one part of a composite
state.  The parts of a state are its regions; a state without regions is one part.  The last part is
the open one, and the parts before it are closed: what a line puts into a composite state goes into
the open part, and a separator closes it as it is.

The main statements are `Nest.mem_membersIn_place`, `Nest.transitionsIn_connect` and
`Nest.membersIn_divide` and `Nest.transitionsIn_divide`: what changes do to the parts.
-/
import UmlDraw.Proofs.State.Nest

namespace UmlDraw
namespace State

/-- A part of a composite state. -/
structure Contents.Part where
  /-- The codes of the elements in it. -/
  members : List String
  /-- The transitions that were written in it. -/
  transitions : List Transition

/-- What is in a region. -/
def Region.part (R : Region) : Contents.Part :=
  ⟨R.members, R.transitions⟩

namespace Contents

/-- The closed parts. -/
def closed : Contents → List Part
  | direct _ _ => []
  | concurrent first middle _ => (first :: middle).map Region.part

/-- The open part. -/
def opened : Contents → Part
  | direct ms ts => ⟨ms, ts⟩
  | concurrent _ _ last => last.part

/-- The parts. -/
def parts (cs : Contents) : List Part :=
  cs.closed ++ [cs.opened]

/-- What a part has, if the parts are counted from 0 on; there is nothing in a part that is not
there. -/
def inPart {α : Type} (cs : Contents) (f : Part → List α) (i : Nat) : List α :=
  (cs.parts[i]?.map f).getD []

/-- The codes of the elements in a part. -/
def membersIn (cs : Contents) : Nat → List String :=
  cs.inPart Part.members

/-- The transitions in a part. -/
def transitionsIn (cs : Contents) : Nat → List Transition :=
  cs.inPart Part.transitions

section Parts

variable (cs : Contents)

lemma closed_addMember (code : String) : (cs.addMember code).closed = cs.closed := by
  cases cs <;> rfl

lemma closed_addTransition (t : Transition) : (cs.addTransition t).closed = cs.closed := by
  cases cs <;> rfl

lemma closed_divide (s : Separator) : (cs.divide s).closed = cs.parts := by
  cases cs with
  | direct ms ts => rfl
  | concurrent first middle last => simp [divide, closed, parts, opened]

lemma opened_addMember (code : String) :
    (cs.addMember code).opened =
      ⟨if cs.opened.members.contains code then cs.opened.members else cs.opened.members ++ [code],
        cs.opened.transitions⟩ := by
  cases cs <;> rfl

lemma opened_addTransition (t : Transition) :
    (cs.addTransition t).opened = ⟨cs.opened.members, cs.opened.transitions ++ [t]⟩ := by
  cases cs <;> rfl

lemma opened_divide (s : Separator) : (cs.divide s).opened = ⟨[], []⟩ := by
  cases cs <;> rfl

lemma parts_divide (s : Separator) : (cs.divide s).parts = cs.parts ++ [⟨[], []⟩] := by
  rw [parts, closed_divide, opened_divide]

/-- A part is closed, or it is the open one, or there is no such part. -/
lemma getElem?_parts (i : Nat) :
    cs.parts[i]? = if i < cs.closed.length then cs.closed[i]?
      else if i = cs.closed.length then some cs.opened else none := by
  rw [parts, List.getElem?_append]
  split
  · rfl
  · next h =>
    rw [List.getElem?_singleton]
    by_cases hi : i = cs.closed.length
    · simp [hi]
    · rw [if_neg hi, if_neg (by omega)]

lemma length_parts : cs.parts.length = cs.closed.length + 1 := by
  rw [parts, List.length_append, List.length_singleton]

section InPart

variable {α : Type} {f : Part → List α}

lemma inPart_closed {i : Nat} (h : i < cs.closed.length) :
    cs.inPart f i = (cs.closed[i]?.map f).getD [] := by
  rw [inPart, getElem?_parts, if_pos h]

lemma inPart_opened : cs.inPart f cs.closed.length = f cs.opened := by
  rw [inPart, getElem?_parts, if_neg (Nat.lt_irrefl _), if_pos rfl]
  rfl

lemma inPart_of_lt {i : Nat} (h : cs.closed.length < i) : cs.inPart f i = [] := by
  rw [inPart, getElem?_parts, if_neg (by omega), if_neg (by omega)]
  rfl

/-- Only the open part counts if the closed parts are the same. -/
lemma inPart_congr {cs' : Contents} (hclosed : cs'.closed = cs.closed)
    (hopened : f cs'.opened = f cs.opened) (i : Nat) : cs'.inPart f i = cs.inPart f i := by
  rw [inPart, inPart, getElem?_parts, getElem?_parts, hclosed]
  split
  · rfl
  · split
    · simp [hopened]
    · rfl

/-- The new part is empty. -/
lemma inPart_divide (hf : f ⟨[], []⟩ = []) (s : Separator) (i : Nat) :
    (cs.divide s).inPart f i = cs.inPart f i := by
  rw [inPart, inPart, parts_divide, List.getElem?_append]
  split
  · rfl
  · next h =>
    rw [List.getElem?_eq_none (Nat.le_of_not_lt h), List.getElem?_singleton]
    split
    · simp [hf]
    · rfl

lemma flatMap_inPart : (List.range cs.parts.length).flatMap (cs.inPart f) = cs.parts.flatMap f := by
  have hget : (List.range cs.parts.length).map (cs.inPart f) = cs.parts.map f := by
    refine List.ext_getElem (by simp) fun i hi hi' => ?_
    have hlt : i < cs.parts.length := by simpa using hi
    simp [inPart, List.getElem?_eq_getElem hlt]
  rw [List.flatMap_def, List.flatMap_def, hget]

lemma inPart_empty (hf : f ⟨[], []⟩ = []) (i : Nat) : empty.inPart f i = [] := by
  cases i with
  | zero => exact hf
  | succ i => rfl

end InPart

/-- An element gets into the open part. -/
lemma mem_membersIn_addMember {code other : String} {i : Nat} :
    other ∈ (cs.addMember code).membersIn i ↔
      other ∈ cs.membersIn i ∨ (i = cs.closed.length ∧ other = code) := by
  rw [membersIn, membersIn]
  have hclosed := cs.closed_addMember code
  rcases Nat.lt_trichotomy i cs.closed.length with hi | rfl | hi
  · rw [inPart_closed _ (hclosed ▸ hi), inPart_closed _ hi, hclosed]
    have hne : i ≠ cs.closed.length := by omega
    simp [hne]
  · have hopened := inPart_opened (cs.addMember code) (f := Part.members)
    rw [hclosed, opened_addMember] at hopened
    rw [hopened, inPart_opened]
    dsimp only
    split
    · next hmem =>
      have hmem : code ∈ cs.opened.members := by simpa using hmem
      constructor
      · exact Or.inl
      · rintro (h | ⟨-, rfl⟩)
        · exact h
        · exact hmem
    · simp
  · rw [inPart_of_lt _ (hclosed ▸ hi), inPart_of_lt _ hi]
    have hne : i ≠ cs.closed.length := by omega
    simp [hne]

lemma membersIn_addTransition (t : Transition) (i : Nat) :
    (cs.addTransition t).membersIn i = cs.membersIn i := by
  refine cs.inPart_congr (cs.closed_addTransition t) ?_ i
  rw [opened_addTransition]

lemma membersIn_divide (s : Separator) (i : Nat) : (cs.divide s).membersIn i = cs.membersIn i :=
  cs.inPart_divide rfl s i

lemma transitionsIn_addMember (code : String) (i : Nat) :
    (cs.addMember code).transitionsIn i = cs.transitionsIn i := by
  refine cs.inPart_congr (cs.closed_addMember code) ?_ i
  rw [opened_addMember]

/-- A transition gets to the end of the open part. -/
lemma transitionsIn_addTransition (t : Transition) (i : Nat) :
    (cs.addTransition t).transitionsIn i =
      cs.transitionsIn i ++ if i = cs.closed.length then [t] else [] := by
  rw [transitionsIn, transitionsIn]
  have hclosed := cs.closed_addTransition t
  rcases Nat.lt_trichotomy i cs.closed.length with hi | rfl | hi
  · have hne : i ≠ cs.closed.length := by omega
    rw [inPart_closed _ (hclosed ▸ hi), inPart_closed _ hi, hclosed, if_neg hne, List.append_nil]
  · have hopened := inPart_opened (cs.addTransition t) (f := Part.transitions)
    rw [hclosed, opened_addTransition] at hopened
    rw [hopened, inPart_opened, if_pos rfl]
  · have hne : i ≠ cs.closed.length := by omega
    rw [inPart_of_lt _ (hclosed ▸ hi), inPart_of_lt _ hi, if_neg hne, List.append_nil]

lemma transitionsIn_divide (s : Separator) (i : Nat) :
    (cs.divide s).transitionsIn i = cs.transitionsIn i :=
  cs.inPart_divide rfl s i

end Parts
end Contents

/-! ### Scopes -/

/-- A place where lines are written. -/
inductive Scope where
  /-- Outside of all composite states. -/
  | top
  /-- A part of a composite state. -/
  | part (holder : String) (index : Nat)
deriving DecidableEq, Repr

namespace Nest

/-- The number of the open part of an element. -/
def openIndex (n : Nest) (code : String) : Nat :=
  (n.contents code).closed.length

variable (n : Nest)

lemma contents_change (code k : String) (f : Contents → Contents) :
    (n.change code f).contents k = if k = code then f (n.contents k) else n.contents k := by
  unfold change
  dsimp only
  rw [Function.update_apply]
  split
  · next h => rw [h]
  · rfl

/-! ### What an element that is placed changes -/

section Place

variable (q : Placement)

lemma transitions_place : (n.apply (.place q)).transitions = n.transitions := by
  rw [apply]
  split <;> rfl

lemma openIndex_place (k : String) : (n.apply (.place q)).openIndex k = n.openIndex k := by
  rw [apply]
  split
  · rw [openIndex, contents_change]
    split
    · exact congrArg _ (Contents.closed_addMember _ _)
    · rfl
  · rfl

lemma transitionsIn_place (k : String) (i : Nat) :
    ((n.apply (.place q)).contents k).transitionsIn i = (n.contents k).transitionsIn i := by
  rw [apply]
  split
  · rw [contents_change]
    split
    · exact Contents.transitionsIn_addMember _ _ _
    · rfl
  · rfl

lemma parent?_place (c : String) :
    (n.apply (.place q)).parent? c =
      if c = q.code then (n.parent? c).or (some q.holder) else n.parent? c := by
  rw [apply]
  by_cases hc : c = q.code
  · rw [if_pos hc, hc]
    split
    · next hfree =>
      dsimp only
      rw [Function.update_self]
      rcases hfree with h | h <;> rw [h] <;> rfl
    · next hheld =>
      cases h : n.parent? q.code with
      | none => exact absurd (.inl h) hheld
      | some p => rfl
  · rw [if_neg hc]
    split
    · exact Function.update_of_ne hc _ _
    · rfl

/-- An element gets into the open part of a composite state, unless another one holds it. -/
lemma mem_membersIn_place (k c : String) (i : Nat) :
    c ∈ ((n.apply (.place q)).contents k).membersIn i ↔
      c ∈ (n.contents k).membersIn i ∨
        (k = q.holder ∧ i = n.openIndex k ∧ c = q.code ∧
          (n.parent? c = none ∨ n.parent? c = some q.holder)) := by
  rw [apply]
  split
  · next hfree =>
    rw [contents_change]
    split
    · next hk =>
      rw [Contents.mem_membersIn_addMember]
      constructor
      · rintro (h | ⟨hi, rfl⟩)
        · exact .inl h
        · exact .inr ⟨hk, hi, rfl, hfree⟩
      · rintro (h | ⟨-, hi, hc, -⟩)
        · exact .inl h
        · exact .inr ⟨hi, hc⟩
    · next hk => simp [hk]
  · next hheld =>
    constructor
    · exact Or.inl
    · rintro (h | ⟨-, -, rfl, hfree⟩)
      · exact h
      · exact absurd hfree hheld

end Place

/-! ### What a transition and a separator change -/

lemma parent?_connect (holder : Option String) (t : Transition) :
    (n.apply (.connect holder t)).parent? = n.parent? := by
  cases holder <;> rfl

lemma transitions_connect (holder : Option String) (t : Transition) :
    (n.apply (.connect holder t)).transitions = n.transitions ++ [t] := by
  cases holder <;> rfl

lemma openIndex_connect (holder : Option String) (t : Transition) (k : String) :
    (n.apply (.connect holder t)).openIndex k = n.openIndex k := by
  cases holder with
  | none => rfl
  | some p =>
    rw [apply, openIndex, contents_change]
    split
    · exact congrArg _ (Contents.closed_addTransition _ _)
    · rfl

lemma membersIn_connect (holder : Option String) (t : Transition) (k : String) (i : Nat) :
    ((n.apply (.connect holder t)).contents k).membersIn i = (n.contents k).membersIn i := by
  cases holder with
  | none => rfl
  | some p =>
    rw [apply, contents_change]
    split
    · exact Contents.membersIn_addTransition _ _ _
    · rfl

/-- A transition gets to the end of the open part of the composite state in which it is written. -/
lemma transitionsIn_connect (holder : Option String) (t : Transition) (k : String) (i : Nat) :
    ((n.apply (.connect holder t)).contents k).transitionsIn i =
      (n.contents k).transitionsIn i ++
        if holder = some k ∧ i = n.openIndex k then [t] else [] := by
  cases holder with
  | none => simp [apply]
  | some p =>
    rw [apply, contents_change]
    by_cases hk : k = p
    · rw [if_pos hk, hk]
      simpa [openIndex] using Contents.transitionsIn_addTransition (n.contents p) t i
    · have hne : ¬ (some p = some k ∧ i = n.openIndex k) := fun h => hk (Option.some.inj h.1).symm
      rw [if_neg hk, if_neg hne, List.append_nil]

lemma openIndex_le_divide (holder : String) (s : Separator) (k : String) :
    n.openIndex k ≤ (n.apply (.divide holder s)).openIndex k := by
  rw [apply, openIndex, openIndex, contents_change]
  split
  · rw [Contents.closed_divide, Contents.length_parts]
    exact Nat.le_succ _
  · exact Nat.le_refl _

lemma membersIn_divide (holder : String) (s : Separator) (k : String) (i : Nat) :
    ((n.apply (.divide holder s)).contents k).membersIn i = (n.contents k).membersIn i := by
  rw [apply, contents_change]
  split
  · exact Contents.membersIn_divide _ _ _
  · rfl

lemma transitionsIn_divide (holder : String) (s : Separator) (k : String) (i : Nat) :
    ((n.apply (.divide holder s)).contents k).transitionsIn i =
      (n.contents k).transitionsIn i := by
  rw [apply, contents_change]
  split
  · exact Contents.transitionsIn_divide _ _ _
  · rfl

/-! ### Several elements that are placed -/

/-- What one placement leaves as it is, several placements do. -/
lemma run_places {α : Type} (g : Nest → α) (hg : ∀ n q, g (apply n (.place q)) = g n)
    (qs : List Placement) : g (n.run (qs.map .place)) = g n := by
  induction qs generalizing n with
  | nil => rfl
  | cons q rest ih => exact (ih (n.apply (.place q))).trans (hg n q)

variable (qs : List Placement)

lemma transitions_places : (n.run (qs.map .place)).transitions = n.transitions :=
  n.run_places transitions transitions_place qs

lemma openIndex_places (k : String) : (n.run (qs.map .place)).openIndex k = n.openIndex k :=
  n.run_places (openIndex · k) (fun n q => n.openIndex_place q k) qs

lemma transitionsIn_places (k : String) (i : Nat) :
    ((n.run (qs.map .place)).contents k).transitionsIn i = (n.contents k).transitionsIn i :=
  n.run_places (fun n => (n.contents k).transitionsIn i) (fun n q => n.transitionsIn_place q k i) qs

end Nest

/-! ### What is written in a scope -/

/-- A transition as it is written. -/
structure Writing where
  /-- The place of the line. -/
  scope : Scope
  /-- What the line says about the start. -/
  source : EndPoint
  /-- What the line says about the end. -/
  target : EndPoint
  transition : Transition

namespace Reader

/-- The scope in which a line is written. -/
def openScope (r : Reader) : Scope :=
  match r.stack with
  | [] => .top
  | p :: _ => .part p (r.diagram.nest.openIndex p)

/-- The transition that a line writes, if it writes one. -/
def writing? (r : Reader) (line : SourceLine) : Option Writing :=
  match r.meaning? line with
  | some (.transition source target head) =>
    some ⟨r.openScope, source.point, target.point, r.written source target head⟩
  | _ => none

/-- The transitions that lines write, in order. -/
def writings : Reader → List SourceLine → List Writing
  | _, [] => []
  | r, line :: rest => (r.writing? line).toList ++ writings (r.step line) rest

variable {r : Reader}

/-- The changes of a line that writes no transition: elements are placed, and a region may be
started. -/
lemma changes_of_writing?_eq_none {line : SourceLine} (h : r.writing? line = none) :
    r.changes line = (r.placements line).map .place ∨
      ∃ p s, r.changes line = (r.placements line).map .place ++ [.divide p s] := by
  rw [changes, placements_eq]
  unfold writing? at h
  split at h
  · cases h
  · next hform =>
    cases hmeaning : r.meaning? line with
    | none => exact .inl rfl
    | some l =>
      simp only [Option.map_some, Option.getD_some]
      cases l with
      | transition source target head => exact absurd hmeaning (hform source target head)
      | separator s =>
        rw [formChanges]
        cases r.stack.head? with
        | none => exact .inl (List.append_nil _)
        | some p => exact .inr ⟨p, s, rfl⟩
      | _ => exact .inl (List.append_nil _)

/-- The changes of a line that writes a transition. -/
lemma changes_of_writing?_eq_some {line : SourceLine} {w : Writing} (h : r.writing? line = some w) :
    w.scope = r.openScope ∧
      r.changes line = (r.placements line).map .place ++ [.connect r.stack.head? w.transition] := by
  rw [changes, placements_eq]
  unfold writing? at h
  split at h
  · next source target head hmeaning =>
    rw [hmeaning, ← Option.some.inj h]
    exact ⟨rfl, rfl⟩
  · cases h

lemma openScope_eq_part_iff {p : String} {i : Nat} :
    r.openScope = .part p i ↔ r.stack.head? = some p ∧ i = r.diagram.nest.openIndex p := by
  unfold openScope
  cases r.stack with
  | nil => simp
  | cons q outer =>
    simp only [Scope.part.injEq, List.head?_cons, Option.some.injEq]
    constructor
    · rintro ⟨rfl, rfl⟩
      exact ⟨rfl, rfl⟩
    · rintro ⟨rfl, rfl⟩
      exact ⟨rfl, rfl⟩

end Reader

/-- The transitions that a text writes, in order. -/
def Diagram.writings (text : String) : List Writing :=
  Reader.writings {} (Source.lines text)

end State
end UmlDraw
