/-
# Declarations before and after links

A link makes the elements that it names, and a declaration behind it adds what it knows to them.  If
the declaration comes first, then the link has nothing to make.  Both orders give the same diagram:
what a link makes has nothing that a declaration would keep, and an element goes where it stood
first.  Only the codes in the open blocks may change their order, as they stand in the order in
which they were placed.

The main statements are

* `Nesting.Alike.enter` and `Nesting.alike_enter_comm`: codes that enter blocks in another order;
* `Reader.alike_put_comm`: elements that are placed in another order;
* `Reader.alike_mention_declare`: a name and the declaration of an element;
* `Reader.alike_declare_link`: the lines of a declaration and of a link.
-/
import Mathlib.Data.List.Forall2
import Mathlib.Data.List.Perm.Basic
import UmlDraw.Proofs.Data.Keyed
import UmlDraw.Proofs.Description.Reader
import UmlDraw.Proofs.Text.Lines
import UmlDraw.Proofs.Text.Reading

namespace UmlDraw

variable {α : Type}

/-! ### Codes in another order -/

/-- Open blocks that are the same up to the order of their own codes. -/
inductive OpenGroup.Alike : OpenGroup α → OpenGroup α → Prop
  | folder (head : α) (path : String) (inner : List (Folder α)) {members members' : List String}
      (h : members.Perm members') :
      Alike (.folder head path members inner) (.folder head path members' inner)
  | together {codes codes' : List String} (h : codes.Perm codes') :
      Alike (.together codes) (.together codes')

namespace Nesting

/-- Folders and groups that are the same up to the order of the codes in open blocks. -/
structure Alike (n n' : Nesting α) : Prop where
  folders : n.folders = n'.folders
  groups : n.groups = n'.groups
  blocks : List.Forall₂ OpenGroup.Alike n.blocks n'.blocks

variable {n n' n'' : Nesting α} {blocks blocks' blocks'' : List (OpenGroup α)}
  {f f' : List String → List String}

lemma alike_blocks_refl (blocks : List (OpenGroup α)) :
    List.Forall₂ OpenGroup.Alike blocks blocks := by
  refine List.forall₂_same.2 fun b _ => ?_
  cases b with
  | folder => exact .folder _ _ _ (List.Perm.refl _)
  | together => exact .together (List.Perm.refl _)

lemma alike_blocks_trans (h : List.Forall₂ OpenGroup.Alike blocks blocks')
    (h' : List.Forall₂ OpenGroup.Alike blocks' blocks'') :
    List.Forall₂ OpenGroup.Alike blocks blocks'' := by
  induction h generalizing blocks'' with
  | nil => exact h'
  | cons hb _ ih =>
    cases h' with
    | cons hb' hrest' =>
      refine .cons ?_ (ih hrest')
      cases hb with
      | folder _ _ _ h =>
        cases hb' with
        | folder _ _ _ h' => exact .folder _ _ _ (h.trans h')
      | together h =>
        cases hb' with
        | together h' => exact .together (h.trans h')

lemma Alike.refl (n : Nesting α) : n.Alike n :=
  ⟨rfl, rfl, alike_blocks_refl _⟩

lemma Alike.trans (h : n.Alike n') (h' : n'.Alike n'') : n.Alike n'' :=
  ⟨h.folders.trans h'.folders, h.groups.trans h'.groups, alike_blocks_trans h.blocks h'.blocks⟩

/-- The order of codes has no part in the innermost open folder. -/
lemma innermost?_of_alike (h : List.Forall₂ OpenGroup.Alike blocks blocks') :
    innermost? blocks = innermost? blocks' := by
  induction h with
  | nil => rfl
  | cons hb _ ih =>
    cases hb with
    | folder => rfl
    | together => exact ih

lemma openHeads_of_alike (h : List.Forall₂ OpenGroup.Alike blocks blocks') :
    openHeads blocks = openHeads blocks' := by
  induction h with
  | nil => rfl
  | cons hb _ ih =>
    cases hb with
    | folder => rw [openHeads, openHeads, ih]
    | together => exact ih

lemma Alike.path? (h : n.Alike n') : n.path? = n'.path? :=
  innermost?_of_alike h.blocks

lemma Alike.heads (h : n.Alike n') : n.heads = n'.heads := by
  rw [Nesting.heads, Nesting.heads, h.folders, openHeads_of_alike h.blocks]

/-! ### Codes that enter -/

/-- To add a code at the end is to insert it, but for the order. -/
lemma addOnce_perm_insert (code : String) (codes : List String) :
    (addOnce code codes).Perm (codes.insert code) := by
  unfold addOnce
  by_cases h : code ∈ codes
  · rw [if_pos (List.contains_iff_mem.2 h), List.insert_of_mem h]
  · rw [if_neg (mt List.contains_iff_mem.1 h), List.insert_of_not_mem h]
    exact List.perm_append_singleton code codes

lemma addOnce_perm (code : String) {codes codes' : List String} (h : codes.Perm codes') :
    (addOnce code codes).Perm (addOnce code codes') :=
  (addOnce_perm_insert code codes).trans
    ((h.insert code).trans (addOnce_perm_insert code codes').symm)

lemma addOnce_perm_comm (code other : String) (codes : List String) :
    (addOnce code (addOnce other codes)).Perm (addOnce other (addOnce code codes)) := by
  have hinsert : ∀ x y, (addOnce x (addOnce y codes)).Perm ((codes.insert y).insert x) :=
    fun x y => (addOnce_perm x (addOnce_perm_insert y codes)).trans (addOnce_perm_insert x _)
  exact (hinsert code other).trans
    ((List.perm_insert_swap code other codes).trans (hinsert other code).symm)

lemma addOnce_addOnce (code : String) (codes : List String) :
    addOnce code (addOnce code codes) = addOnce code codes :=
  if_pos (List.contains_iff_mem.2 (mem_addOnce.2 (.inr rfl)))

lemma alike_changeMembers (hf : ∀ {ms ms' : List String}, ms.Perm ms' → (f ms).Perm (f' ms'))
    (h : List.Forall₂ OpenGroup.Alike blocks blocks') :
    List.Forall₂ OpenGroup.Alike (changeMembers f blocks) (changeMembers f' blocks') := by
  induction h with
  | nil => exact .nil
  | cons hb hrest ih =>
    cases hb with
    | folder _ _ _ h => exact .cons (.folder _ _ _ (hf h)) hrest
    | together h => exact .cons (.together h) ih

lemma alike_changeTogether (hf : ∀ {ms ms' : List String}, ms.Perm ms' → (f ms).Perm (f' ms'))
    (h : List.Forall₂ OpenGroup.Alike blocks blocks') :
    List.Forall₂ OpenGroup.Alike (changeTogether f blocks) (changeTogether f' blocks') := by
  induction h with
  | nil => exact .nil
  | cons hb hrest ih =>
    cases hb with
    | folder _ _ _ h => exact .cons (.folder _ _ _ h) ih
    | together h => exact .cons (.together (hf h)) hrest

lemma changeMembers_changeMembers (f f' : List String → List String)
    (blocks : List (OpenGroup α)) :
    changeMembers f (changeMembers f' blocks) = changeMembers (f ∘ f') blocks := by
  induction blocks with
  | nil => rfl
  | cons b rest ih =>
    cases b with
    | folder => rfl
    | together => simp only [changeMembers, ih]

lemma changeTogether_changeTogether (f f' : List String → List String)
    (blocks : List (OpenGroup α)) :
    changeTogether f (changeTogether f' blocks) = changeTogether (f ∘ f') blocks := by
  induction blocks with
  | nil => rfl
  | cons b rest ih =>
    cases b with
    | folder => simp only [changeTogether, ih]
    | together => rfl

/-- Folders and groups do not share their codes. -/
lemma changeMembers_changeTogether (f g : List String → List String)
    (blocks : List (OpenGroup α)) :
    changeMembers f (changeTogether g blocks) = changeTogether g (changeMembers f blocks) := by
  cases blocks with
  | nil => rfl
  | cons b rest => cases b <;> rfl

lemma changeMembers_id (blocks : List (OpenGroup α)) : changeMembers id blocks = blocks := by
  induction blocks with
  | nil => rfl
  | cons b rest ih =>
    cases b with
    | folder => rfl
    | together => rw [changeMembers, ih]

lemma changeMembers_of_innermost?_eq_none (h : innermost? blocks = none)
    (f : List String → List String) : changeMembers f blocks = blocks := by
  induction blocks with
  | nil => rfl
  | cons b rest ih =>
    cases b with
    | folder => cases h
    | together => rw [changeMembers, ih h]

/-- A code enters the innermost group, and the innermost folder unless it stands in one. -/
def enter (n : Nesting α) (isPlaced : Bool) (code : String) : Nesting α :=
  (if isPlaced then n else n.enterFolder code).enterTogether (addOnce code)

/-- What a code does to the codes of the innermost folder. -/
def entering (isPlaced : Bool) (code : String) : List String → List String :=
  if isPlaced then id else addOnce code

lemma entering_perm (isPlaced : Bool) (code : String) {members members' : List String}
    (h : members.Perm members') :
    (entering isPlaced code members).Perm (entering isPlaced code members') := by
  cases isPlaced with
  | true => exact h
  | false => exact addOnce_perm code h

lemma entering_perm_comm (isPlaced isPlaced' : Bool) (code code' : String)
    (members : List String) :
    (entering isPlaced' code' (entering isPlaced code members)).Perm
      (entering isPlaced code (entering isPlaced' code' members)) := by
  cases isPlaced with
  | true => exact List.Perm.refl _
  | false =>
    cases isPlaced' with
    | true => exact List.Perm.refl _
    | false => exact addOnce_perm_comm code' code members

lemma enter_eq (n : Nesting α) (isPlaced : Bool) (code : String) :
    n.enter isPlaced code =
      { n with
        blocks := changeTogether (addOnce code)
          (changeMembers (entering isPlaced code) n.blocks) } := by
  cases isPlaced with
  | false => rfl
  | true =>
    have hid : entering true code = id := rfl
    rw [hid, changeMembers_id]
    rfl

lemma path?_enter (n : Nesting α) (isPlaced : Bool) (code : String) :
    (n.enter isPlaced code).path? = n.path? := by
  rw [enter_eq]
  exact (innermost?_changeTogether _ _).trans (innermost?_changeMembers _ _)

lemma heads_enter (n : Nesting α) (isPlaced : Bool) (code : String) :
    (n.enter isPlaced code).heads = n.heads := by
  simp [enter_eq, heads_eq, labels]

theorem Alike.enter (h : n.Alike n') (isPlaced : Bool) (code : String) :
    (n.enter isPlaced code).Alike (n'.enter isPlaced code) := by
  rw [enter_eq, enter_eq]
  exact ⟨h.folders, h.groups, alike_changeTogether (addOnce_perm code)
    (alike_changeMembers (entering_perm isPlaced code) h.blocks)⟩

/-- Two codes enter in any order. -/
theorem alike_enter_comm (n : Nesting α) (isPlaced isPlaced' : Bool) (code code' : String) :
    ((n.enter isPlaced code).enter isPlaced' code').Alike
      ((n.enter isPlaced' code').enter isPlaced code) := by
  simp only [enter_eq, changeMembers_changeTogether, changeMembers_changeMembers,
    changeTogether_changeTogether]
  refine ⟨rfl, rfl, alike_changeTogether (fun {codes codes'} h => ?_)
    (alike_changeMembers (fun {members members'} h => ?_) (alike_blocks_refl n.blocks))⟩
  · exact (addOnce_perm_comm code' code codes).trans
      (addOnce_perm code (addOnce_perm code' h))
  · exact (entering_perm_comm isPlaced isPlaced' code code' members).trans
      (entering_perm isPlaced code (entering_perm isPlaced' code' h))

/-- A code that has entered does not enter again. -/
theorem enter_enter {isPlaced : Bool} (h : isPlaced = n.path?.isSome) (code : String) :
    (n.enter false code).enter isPlaced code = n.enter false code := by
  have htogether : addOnce code ∘ addOnce code = addOnce code := funext (addOnce_addOnce code)
  simp only [enter_eq, changeMembers_changeTogether, changeMembers_changeMembers,
    changeTogether_changeTogether, htogether]
  cases hpath : n.path? with
  | some path =>
    rw [hpath] at h
    rw [h]
    rfl
  | none =>
    have hstay : ∀ f, changeMembers f n.blocks = n.blocks :=
      changeMembers_of_innermost?_eq_none hpath
    rw [hstay, hstay]

end Nesting

/-! ### Elements that are placed -/

namespace Description

/-- The element in a container, unless it is in one. -/
def Element.into (path : Option String) (e : Element) : Element :=
  { e with containerPath := e.containerPath.or path }

lemma Element.into_into (path : Option String) (e : Element) :
    (e.into path).into path = e.into path := by
  simp [into, Option.or_assoc]

lemma Element.into_eq_self {path : Option String} {e : Element}
    (h : e.containerPath.isSome = true ∨ path = none) : e.into path = e := by
  obtain ⟨code, display, kind, color, lineColor, stereotypes, containerPath⟩ := e
  rcases h with h | rfl
  · obtain ⟨inner, rfl⟩ := Option.isSome_iff_exists.1 h
    rfl
  · simp [into]

lemma foldl_addOnce {more all : List String} (h : (all ++ more).Nodup) :
    more.foldl (fun all s => Nesting.addOnce s all) all = all ++ more := by
  induction more generalizing all with
  | nil => exact (List.append_nil all).symm
  | cons s rest ih =>
    have hs : s ∉ all := fun hs => List.disjoint_of_nodup_append h hs List.mem_cons_self
    have hadd : Nesting.addOnce s all = all ++ [s] := if_neg (mt List.contains_iff_mem.1 hs)
    rw [List.foldl_cons, hadd, ih (by simpa using h), List.append_assoc]
    rfl

namespace Reader

/-- A declaration leaves nothing of an element that a name has made but its container. -/
lemma merge_named {dialect : Dialect} {e : Element} (hpath : e.containerPath = none)
    (hnodup : e.stereotypes.Nodup) (path : Option String) :
    merge dialect ((Element.named e.code e.code dialect.defaultKind).into path) e =
      e.into path := by
  have hdisplay : (if e.code.isEmpty then e.code else e.code) = e.code := ite_self _
  have hstereotypes : e.stereotypes.foldl (fun all s => Nesting.addOnce s all) [] =
      e.stereotypes := foldl_addOnce hnodup
  obtain ⟨code, display, kind, color, lineColor, stereotypes, containerPath⟩ := e
  obtain rfl : containerPath = none := hpath
  simp only [merge, Element.into, Element.named, hdisplay, hstereotypes, if_true, Option.or_none]

/-- Readers that are the same up to the order of the elements, and of the codes in open blocks. -/
structure Alike (r r' : Reader) : Prop where
  rest : r' = { r with elements := r'.elements, nesting := r'.nesting }
  elements : ∀ code, r.elements.get? code = r'.elements.get? code
  nesting : r.nesting.Alike r'.nesting

variable {r r' r'' : Reader} {e x y : Element} {code code' : String}

lemma Builds.rest_eq (h : r.Builds r') :
    r' = { r with elements := r'.elements, nesting := r'.nesting } := by
  obtain ⟨_, _, rfl⟩ := h.rest
  rfl

lemma Alike.refl (r : Reader) : r.Alike r :=
  ⟨rfl, fun _ => rfl, .refl _⟩

lemma Alike.trans (h : r.Alike r') (h' : r'.Alike r'') : r.Alike r'' where
  rest := by rw [h'.rest, h.rest]
  elements := fun code => (h.elements code).trans (h'.elements code)
  nesting := h.nesting.trans h'.nesting

/-- The element of the code is in a container. -/
def isPlaced (r : Reader) (code : String) : Bool :=
  ((r.elements.get? code).bind Element.containerPath).isSome

/-- An element that is in a container stays there, and so does one where no container is open. -/
lemma place_eq_stay (h : r.isPlaced code = true ∨ r.nesting.path? = none) :
    r.place code = { r with nesting := r.nesting.enterTogether (Nesting.addOnce code) } := by
  have hnone : (if ((r.elements.get? code).bind Element.containerPath).isSome then none
      else r.nesting.path?) = none := by
    rcases h with h | h
    · exact if_pos h
    · rw [h, ite_self]
  unfold place
  simp only [hnone]

/-- An element that is in no container goes into the innermost one. -/
lemma place_eq_move (h : r.isPlaced code = false) {path : String}
    (hpath : r.nesting.path? = some path) :
    r.place code = { r with
      elements := r.elements.modify code fun e => { e with containerPath := some path }
      nesting := (r.nesting.enterFolder code).enterTogether (Nesting.addOnce code) } := by
  have hsome : (if ((r.elements.get? code).bind Element.containerPath).isSome then none
      else r.nesting.path?) = some path :=
    (if_neg (Bool.eq_false_iff.1 h)).trans hpath
  unfold place
  simp only [hsome]

lemma place_cases (r : Reader) (code : String) :
    (r.isPlaced code = true ∨ r.nesting.path? = none) ∨
      r.isPlaced code = false ∧ ∃ path, r.nesting.path? = some path := by
  cases r.isPlaced code with
  | true => exact .inl (.inl rfl)
  | false =>
    cases r.nesting.path? with
    | none => exact .inl (.inr rfl)
    | some path => exact .inr ⟨rfl, path, rfl⟩

/-- The element of the code goes into the innermost container, unless it is in one. -/
lemma get?_place (r : Reader) (code other : String) :
    (r.place code).elements.get? other =
      if other = code then (r.elements.get? other).map (Element.into r.nesting.path?)
      else r.elements.get? other := by
  have hmap : other = code → ∀ f : Element → Element,
      (∀ e, r.elements.get? code = some e → f e = e.into r.nesting.path?) →
        (r.elements.get? other).map f =
          (r.elements.get? other).map (Element.into r.nesting.path?) := by
    rintro rfl f hf
    exact Option.map_congr fun e he => hf e he
  rcases r.place_cases code with h | ⟨h, path, hpath⟩
  · rw [place_eq_stay h]
    split
    · next hother =>
      rw [← hmap hother id fun e he => ?_, Option.map_id_fun, id]
      rw [isPlaced, he] at h
      exact (Element.into_eq_self h).symm
    · rfl
  · rw [place_eq_move h hpath, Keyed.get?_modify]
    split
    · next hother =>
      refine hmap hother _ fun e he => ?_
      rw [isPlaced, he] at h
      have hnone : e.containerPath = none :=
        Option.isNone_iff_eq_none.1 (Option.isSome_eq_false_iff.1 h)
      rw [hpath, Element.into, hnone, Option.none_or]
    · rfl

lemma nesting_place (r : Reader) (code : String) :
    (r.place code).nesting = r.nesting.enter (r.isPlaced code) code := by
  rcases r.place_cases code with h | ⟨h, path, hpath⟩
  · rw [place_eq_stay h]
    cases hplaced : r.isPlaced code with
    | true => rfl
    | false =>
      rw [hplaced] at h
      have hpath := h.resolve_left Bool.false_ne_true
      have hstay : r.nesting.enterFolder code = r.nesting := by
        rw [Nesting.enterFolder, Nesting.changeMembers_of_innermost?_eq_none hpath]
      rw [Nesting.enter, if_neg Bool.false_ne_true, hstay]
  · rw [place_eq_move h hpath, h]
    rfl

/-- Writes an element and places it. -/
def put (r : Reader) (code : String) (e : Element) : Reader :=
  { r with elements := r.elements.insert code e }.place code

lemma put_rest (r : Reader) (code : String) (e : Element) :
    r.put code e =
      { r with elements := (r.put code e).elements, nesting := (r.put code e).nesting } :=
  (builds_place _ code).rest_eq

lemma get?_put (r : Reader) (code : String) (e : Element) (other : String) :
    (r.put code e).elements.get? other =
      if other = code then some (e.into r.nesting.path?) else r.elements.get? other := by
  rw [put, get?_place, Keyed.get?_insert]
  split <;> rfl

lemma nesting_put (r : Reader) (code : String) (e : Element) :
    (r.put code e).nesting = r.nesting.enter e.containerPath.isSome code := by
  rw [put, nesting_place, isPlaced, Keyed.get?_insert, if_pos rfl]
  rfl

lemma dialect_put (r : Reader) (code : String) (e : Element) :
    (r.put code e).dialect = r.dialect := by
  rw [put_rest]

lemma path?_put (r : Reader) (code : String) (e : Element) :
    (r.put code e).nesting.path? = r.nesting.path? := by
  rw [nesting_put, Nesting.path?_enter]

theorem Alike.put (h : r.Alike r') (code : String) (e : Element) :
    (r.put code e).Alike (r'.put code e) where
  rest := by
    rw [put_rest r', put_rest r, h.rest]
  elements := by
    intro other
    rw [get?_put, get?_put, h.nesting.path?, h.elements]
  nesting := by
    rw [nesting_put, nesting_put]
    exact h.nesting.enter _ _

/-- Elements with different codes are put in any order. -/
theorem alike_put_comm (r : Reader) (hne : code ≠ code') (x y : Element) :
    ((r.put code x).put code' y).Alike ((r.put code' y).put code x) where
  rest := by
    rw [put_rest (r.put code' y), put_rest (r.put code x), put_rest r code' y, put_rest r code x]
  elements := by
    intro other
    simp only [get?_put, path?_put]
    by_cases hcode : other = code
    · rw [if_neg (hcode ▸ hne), if_pos hcode, if_pos hcode]
    · rw [if_neg hcode, if_neg hcode]
  nesting := by
    simp only [nesting_put]
    exact Nesting.alike_enter_comm _ _ _ _ _

/-- What is put in the place of an element stands where that stood. -/
theorem alike_put_put (r : Reader) (code : String) (hx : x.containerPath = none)
    (hy : y.containerPath = none) :
    (r.put code y).Alike ((r.put code x).put code (y.into r.nesting.path?)) where
  rest := by
    rw [put_rest (r.put code x), put_rest r code x, put_rest r code y]
  elements := by
    intro other
    simp only [get?_put, path?_put, Element.into_into]
    split <;> rfl
  nesting := by
    have hplaced : (y.into r.nesting.path?).containerPath.isSome = r.nesting.path?.isSome := by
      rw [Element.into, hy, Option.none_or]
    rw [nesting_put, nesting_put, nesting_put, hx, hy, Option.isSome_none,
      Nesting.enter_enter hplaced]
    exact .refl _

/-! ### Names and declarations -/

/-- What is known under the code of a declared element, with what the declaration adds. -/
def declared (r : Reader) (e : Element) : Element :=
  ((r.elements.get? e.code).map fun old => merge r.dialect old e).getD e

/-- A name makes nothing if its code belongs to something. -/
def knows (r : Reader) (code : String) : Bool :=
  r.noteCodes.contains code || r.elements.contains code || r.isContainer code

lemma declare_eq_put (r : Reader) (e : Element) : r.declare e = r.put e.code (r.declared e) := by
  unfold declare declared put
  cases h : r.elements.get? e.code with
  | none =>
    have hnew : r.elements.contains e.code = false := by rw [Keyed.contains, h]; rfl
    simp only [hnew, Bool.false_eq_true, if_false]
    rfl
  | some old =>
    have hold : r.elements.contains e.code = true := by rw [Keyed.contains, h]; rfl
    simp only [hold, if_true, Option.map_some, Option.getD_some]
    rw [Keyed.insert_eq_modify h fun old => merge r.dialect old e]

lemma mention_of_knows {ref : Reference} (h : r.knows ref.code = true) : r.mention ref = r :=
  if_pos h

lemma mention_eq_put {ref : Reference} (h : r.knows ref.code = false) :
    r.mention ref = r.put ref.code (Element.named ref.code ref.display ref.kind) :=
  if_neg (Bool.eq_false_iff.1 h)

lemma declared_of_alike (h : r.Alike r') (e : Element) : r.declared e = r'.declared e := by
  have hdialect : r'.dialect = r.dialect := by rw [h.rest]
  rw [declared, declared, h.elements, hdialect]

lemma knows_of_alike (h : r.Alike r') (code : String) : r.knows code = r'.knows code := by
  have hnotes : r'.noteCodes = r.noteCodes := by rw [h.rest]
  rw [knows, knows, hnotes, isContainer, isContainer, h.nesting.heads, Keyed.contains,
    Keyed.contains, h.elements]

theorem Alike.declare (h : r.Alike r') (e : Element) : (r.declare e).Alike (r'.declare e) := by
  rw [declare_eq_put, declare_eq_put, declared_of_alike h]
  exact h.put _ _

theorem Alike.mention (h : r.Alike r') (ref : Reference) :
    (r.mention ref).Alike (r'.mention ref) := by
  cases hknows : r.knows ref.code with
  | true => rwa [mention_of_knows hknows, mention_of_knows ((knows_of_alike h _) ▸ hknows)]
  | false =>
    rw [mention_eq_put hknows, mention_eq_put ((knows_of_alike h _) ▸ hknows)]
    exact h.put _ _

lemma knows_put (r : Reader) (code : String) (x : Element) (other : String) :
    (r.put code x).knows other = (r.knows other || other == code) := by
  have hnotes : (r.put code x).noteCodes = r.noteCodes := by rw [put_rest]
  have hcontainer : (r.put code x).isContainer other = r.isContainer other := by
    rw [isContainer, nesting_put, Nesting.heads_enter, isContainer]
  have helements : (r.put code x).elements.contains other =
      (r.elements.contains other || other == code) := by
    rw [Keyed.contains, get?_put]
    split
    · next h => simp [h]
    · next h => rw [beq_eq_false_iff_ne.2 h, Bool.or_false, Keyed.contains]
  rw [knows, knows, hnotes, hcontainer, helements]
  cases r.noteCodes.contains other <;> cases r.elements.contains other <;>
    cases r.isContainer other <;> simp

/-- A name that makes the element of a declaration. -/
lemma alike_mention_declare_own (r : Reader) {e : Element} (hpath : e.containerPath = none)
    (hnodup : e.stereotypes.Nodup) (hknows : r.knows e.code = false) :
    (r.declare e).Alike
      ((r.put e.code (Element.named e.code e.code r.dialect.defaultKind)).declare e) := by
  have hnew : r.elements.get? e.code = none := by
    simp only [knows, Bool.or_eq_false_iff] at hknows
    exact Option.isNone_iff_eq_none.1 (Option.isSome_eq_false_iff.1 hknows.1.2)
  have hfresh : r.declared e = e := by rw [declared, hnew]; rfl
  have hmade : (r.put e.code (Element.named e.code e.code r.dialect.defaultKind)).declared e =
      e.into r.nesting.path? := by
    rw [declared, get?_put, if_pos rfl, dialect_put]
    exact merge_named hpath hnodup _
  rw [declare_eq_put, declare_eq_put, hfresh, hmade]
  exact alike_put_put r e.code rfl hpath

/-- A name and a declaration give the same in both orders. -/
theorem alike_mention_declare (r : Reader) {e : Element} (hpath : e.containerPath = none)
    (hnodup : e.stereotypes.Nodup) (code : String) :
    ((r.declare e).mention ⟨code, code, r.dialect.defaultKind⟩).Alike
      ((r.mention ⟨code, code, r.dialect.defaultKind⟩).declare e) := by
  have hdeclared : (r.declare e).knows code = (r.knows code || code == e.code) := by
    rw [declare_eq_put, knows_put]
  cases hknows : r.knows code with
  | true =>
    -- the name makes nothing, before the declaration and behind it
    rw [hknows, Bool.true_or] at hdeclared
    rw [mention_of_knows (r := r) hknows, mention_of_knows hdeclared]
    exact .refl _
  | false =>
    rw [mention_eq_put (r := r) hknows]
    by_cases hcode : code = e.code
    · subst hcode
      rw [hknows, Bool.false_or, beq_self_eq_true] at hdeclared
      rw [mention_of_knows hdeclared]
      exact alike_mention_declare_own r hpath hnodup hknows
    · rw [hknows, Bool.false_or, beq_eq_false_iff_ne.2 hcode] at hdeclared
      have hsame : (r.put code (Element.named code code r.dialect.defaultKind)).declared e =
          r.declared e := by
        rw [declared, get?_put, if_neg (Ne.symm hcode), dialect_put, declared]
      rw [mention_eq_put hdeclared, declare_eq_put, declare_eq_put, hsame]
      exact alike_put_comm r (Ne.symm hcode) _ _

end Reader

/-! ### Lines -/

namespace Line

/-- A bare name: a character of words, with characters of codes behind it. -/
def IsBare (s : String) : Prop :=
  ∃ c cs, s.toList = c :: cs ∧ Letter.isWord c = true ∧ ∀ d ∈ cs, Label.isCode d = true

open Scan in
/-- The forms with marks of their own begin with the marks. -/
lemma fails_markedReference (dialect : Dialect) {c : Char} (hc : Letter.isWord c = true)
    (cs : List Char) : (markedReference dialect).Fails (c :: cs) := by
  have hne : ∀ mark : Char, Letter.isWord mark = false → c ≠ mark := by
    rintro mark hmark rfl
    exact absurd hc (Bool.eq_false_iff.1 hmark)
  have hchar : ∀ mark : Char, Letter.isWord mark = false → (Scan.char mark).Fails (c :: cs) := by
    intro mark hmark
    refine fails_char fun d hd => ?_
    exact Option.some.inj hd ▸ hne mark hmark
  have hsign : (Scan.text "()").Fails (c :: cs) :=
    fails_text (if_neg (hne '(' (by decide)).symm)
  refine fails_anyOf ?_
  simp only [List.forall_mem_cons]
  refine ⟨?_, ?_, ?_, ?_, ?_, List.forall_mem_nil _⟩
  · exact ((hchar '[' (by decide)).bind _).bind _
  · exact (hsign.bind _).bind _
  · exact (((hchar ':' (by decide)).bind _).bind _).bind _
  · exact (((hchar '(' (by decide)).bind _).bind _).bind _
  · exact ((hchar '"' (by decide)).bind _).bind _

lemma isBlank_of_isCode {c : Char} (h : Label.isCode c = true) : Letter.isBlank c = false := by
  refine Bool.eq_false_iff.2 fun hblank => ?_
  rw [Label.isCode, Letter.isWord_of_isBlank hblank, Bool.false_or, beq_iff_eq] at h
  subst h
  exact absurd hblank (by decide)

/-- A bare name stands for itself. -/
lemma reference_of_isBare (dialect : Dialect) {s : String} (h : IsBare s) :
    reference dialect s = ⟨s, s, dialect.defaultKind⟩ := by
  obtain ⟨c, cs, hs, hc, hcs⟩ := h
  have hblank : ∀ d ∈ s.toList, Letter.isBlank d = false := by
    rw [hs]
    have hcode : Label.isCode c = true := by rw [Label.isCode, hc, Bool.true_or]
    exact List.forall_mem_cons.2 ⟨isBlank_of_isCode hcode, fun d hd => isBlank_of_isCode (hcs d hd)⟩
  have htrim : Chars.trim s.toList = s.toList := by
    rw [Chars.trim, Chars.trimLeft_of_head fun d hd => hblank d (List.mem_of_mem_head? hd),
      Chars.trimRight_of_getLast fun d hd => hblank d (List.mem_of_mem_getLast? hd)]
  have hmarked : (markedReference dialect).whole s.toList = none := by
    rw [hs]
    exact fails_markedReference dialect hc cs _
  rw [reference, htrim, hmarked, Option.getD_none, String.ofList_toList]

lemma read?_nil (dialect : Dialect) : read? dialect [] = none := by
  cases dialect <;> rfl

end Line

namespace Reader

variable {r r' : Reader} {e : Element}

lemma declare_rest (r : Reader) (e : Element) :
    r.declare e =
      { r with elements := (r.declare e).elements, nesting := (r.declare e).nesting } := by
  rw [declare_eq_put]
  exact put_rest _ _ _

lemma dialect_mention (r : Reader) (ref : Reference) : (r.mention ref).dialect = r.dialect := by
  rw [(builds_mention r ref).rest_eq]

lemma dialect_declare (r : Reader) (e : Element) : (r.declare e).dialect = r.dialect := by
  rw [declare_rest]

/-- The names of a link may be mentioned before a declaration or behind it. -/
lemma alike_mentions_declare (r : Reader) {e : Element} (hpath : e.containerPath = none)
    (hnodup : e.stereotypes.Nodup) (source target : String) :
    (((r.declare e).mention ⟨source, source, r.dialect.defaultKind⟩).mention
        ⟨target, target, r.dialect.defaultKind⟩).Alike
      (((r.mention ⟨source, source, r.dialect.defaultKind⟩).mention
        ⟨target, target, r.dialect.defaultKind⟩).declare e) := by
  have hsource := (alike_mention_declare r hpath hnodup source).mention
    ⟨target, target, r.dialect.defaultKind⟩
  have htarget := alike_mention_declare (r.mention ⟨source, source, r.dialect.defaultKind⟩)
    hpath hnodup target
  rw [dialect_mention] at htarget
  exact hsource.trans htarget

/-- The reader with other links. -/
def withLinks (r : Reader) (links : List Link) : Reader :=
  { r with links := links }

/-- Elements and blocks do not depend on links. -/
lemma put_withLinks (r : Reader) (links : List Link) (code : String) (e : Element) :
    (r.withLinks links).put code e = (r.put code e).withLinks links := by
  have hplace : ∀ r : Reader, (r.withLinks links).place code = (r.place code).withLinks links := by
    intro r
    rcases r.place_cases code with h | ⟨h, path, hpath⟩
    · rw [place_eq_stay h, place_eq_stay (r := r.withLinks links) h]
      rfl
    · rw [place_eq_move h hpath, place_eq_move (r := r.withLinks links) h hpath]
      rfl
  exact hplace { r with elements := r.elements.insert code e }

lemma declare_withLinks (r : Reader) (links : List Link) (e : Element) :
    (r.withLinks links).declare e = (r.declare e).withLinks links := by
  rw [declare_eq_put, declare_eq_put, put_withLinks]
  rfl

lemma Alike.withLinks (h : r.Alike r') (links : List Link) :
    (r.withLinks links).Alike (r'.withLinks links) where
  rest := by
    rw [h.rest]
    rfl
  elements := h.elements
  nesting := h.nesting

lemma addLink_of_isBare (r : Reader) {l : Link} (hsource : Line.IsBare l.source.code)
    (htarget : Line.IsBare l.target.code) :
    r.addLink l =
      ((r.mention ⟨l.source.code, l.source.code, r.dialect.defaultKind⟩).mention
        ⟨l.target.code, l.target.code, r.dialect.defaultKind⟩).withLinks
          (r.links ++ [l.rename l.source.code l.target.code]) := by
  have hlinks : ∀ (r : Reader) (ref : Reference), (r.mention ref).links = r.links := by
    intro r ref
    rw [(builds_mention r ref).rest_eq]
  unfold addLink
  dsimp only
  rw [Line.reference_of_isBare _ hsource, Line.reference_of_isBare _ htarget, hlinks, hlinks]
  rfl

/-- A declaration and a link give the same in both orders. -/
theorem alike_declare_addLink (r : Reader) {e : Element} (hpath : e.containerPath = none)
    (hnodup : e.stereotypes.Nodup) {l : Link} (hsource : Line.IsBare l.source.code)
    (htarget : Line.IsBare l.target.code) :
    ((r.declare e).addLink l).Alike ((r.addLink l).declare e) := by
  have hlinks : (r.declare e).links = r.links := by rw [declare_rest]
  rw [addLink_of_isBare _ hsource htarget, addLink_of_isBare _ hsource htarget, declare_withLinks,
    hlinks, dialect_declare]
  exact (alike_mentions_declare r hpath hnodup _ _).withLinks _

lemma step_eq_apply {line : SourceLine} {l : Line} (hbody : r.body = none)
    (h : Line.read? r.dialect line.text = some l) : r.step line = r.apply l := by
  have hfilled : ¬ line.text.isEmpty = true := by
    intro hempty
    rw [List.isEmpty_iff.1 hempty, Line.read?_nil] at h
    cases h
  unfold step
  rw [hbody]
  dsimp only
  rw [if_neg hfilled, h]

/-- A line that declares an element and a line with a link give the same in both orders. -/
theorem alike_declare_link {declaration link : SourceLine} {l : Link} (hbody : r.body = none)
    (hdeclaration : Line.read? r.dialect declaration.text = some (.declare e))
    (hnodup : e.stereotypes.Nodup) (hlink : Line.read? r.dialect link.text = some (.link l))
    (hsource : Line.IsBare l.source.code) (htarget : Line.IsBare l.target.code) :
    ((r.step declaration).step link).Alike ((r.step link).step declaration) := by
  have hpath : e.containerPath = none := Line.placesNothing_of_read? hdeclaration
  have hfirst : r.step declaration = r.declare e := step_eq_apply hbody hdeclaration
  have hsecond : r.step link = r.addLink l := step_eq_apply hbody hlink
  have hbody₁ : (r.declare e).body = none := by rw [declare_rest]; exact hbody
  have hthird : (r.declare e).step link = (r.declare e).addLink l :=
    step_eq_apply hbody₁ ((dialect_declare r e).symm ▸ hlink)
  have hrest : (r.addLink l).body = r.body ∧ (r.addLink l).dialect = r.dialect := by
    rw [addLink_of_isBare _ hsource htarget,
      ((builds_mention r _).trans (builds_mention _ _)).rest_eq]
    exact ⟨rfl, rfl⟩
  have hfourth : (r.addLink l).step declaration = (r.addLink l).declare e :=
    step_eq_apply (hrest.1.trans hbody) (hrest.2.symm ▸ hdeclaration)
  rw [hfirst, hsecond, hthird, hfourth]
  exact alike_declare_addLink r hpath hnodup hsource htarget

/-- A component diagram within an open package and an open group. -/
def grouped : Reader :=
  (apply { dialect := .components } (.container ⟨"P", "P", .package, none, []⟩)).apply .together

/-- A line without blanks around it. -/
def lineOf (s : String) : SourceLine :=
  ⟨s.toList, s.toList⟩

/-- The link names `B` before `A`, so the codes in the group and the package change their order. -/
theorem alike_declare_link_grouped :
    ∃ e l, Line.read? .components (lineOf "component A <<x>> #red").text = some (.declare e) ∧
      Line.read? .components (lineOf "B --> A").text = some (.link l) ∧ e.stereotypes = ["x"] ∧
      l.source.code = "B" ∧ l.target.code = "A" ∧
      ((grouped.step (lineOf "component A <<x>> #red")).step (lineOf "B --> A")).Alike
        ((grouped.step (lineOf "B --> A")).step (lineOf "component A <<x>> #red")) := by
  have hsource : Line.IsBare "B" := ⟨'B', [], rfl, by decide, List.forall_mem_nil _⟩
  have htarget : Line.IsBare "A" := ⟨'A', [], rfl, by decide, List.forall_mem_nil _⟩
  exact ⟨_, _, rfl, rfl, rfl, rfl, rfl,
    alike_declare_link rfl rfl (List.nodup_singleton "x") rfl hsource htarget⟩

end Reader
end Description
end UmlDraw
