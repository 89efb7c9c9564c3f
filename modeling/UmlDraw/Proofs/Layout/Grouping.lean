/-
# Folders and groups while a text is read

The folders of a text are those that stand at its top when all open blocks are closed, and codes
enter the innermost open folder and the innermost open group.

The main statements are

* `Nesting.allFolders_close`: closing a block changes no folder;
* `Nesting.mem_labels_openFolder`: a folder that is opened adds its label;
* `mem_gather`: groups change the order of codes only;
* `Nesting.Lists.close` and `Nesting.Lists.allFolders`: what holds of every list of codes;
* `Folder.exists_stands_last`: the last folder with a property;
* `Folder.Stands.path_not_mem_around`: no folder around has the path of one inside;
* `Nesting.Deepens.moves` and `Nesting.Deepens.allFolders`: the paths of a text get longer inwards.
-/
import Mathlib.Data.List.Nodup
import Mathlib.Tactic.Lemma
import UmlDraw.Layout.Grouping

namespace UmlDraw

/-! ## Folders and their labels

The folders of a text are those that stand at its top when all open blocks are closed.  What is
known of a folder but its contents is its *label*: its head and its path.  No later line takes a
label away: a block that is closed earlier gives the same folders, and only `openFolder` adds one. -/

variable {α : Type}

namespace Folder

/-- The head and the path of a folder. -/
def label (f : Folder α) : α × String :=
  (f.head, f.path)

lemma walk_eq (f : Folder α) : f.walk = f :: walkAll f.inner := by
  cases f
  rfl

lemma walkAll_append (fs gs : List (Folder α)) : walkAll (fs ++ gs) = walkAll fs ++ walkAll gs := by
  induction fs with
  | nil => rfl
  | cons f rest ih => rw [List.cons_append, walkAll, walkAll, ih, List.append_assoc]

lemma walkAll_singleton (f : Folder α) : walkAll [f] = f :: walkAll f.inner := by
  rw [walkAll, walkAll, List.append_nil, walk_eq]

lemma allMembers_append (fs gs : List (Folder α)) :
    allMembers (fs ++ gs) = allMembers fs ++ allMembers gs := by
  rw [allMembers, walkAll_append, List.flatMap_append, allMembers, allMembers]

end Folder

namespace Nesting

variable {n : Nesting α} {blocks blocks' : List (OpenGroup α)} {f : Folder α} {x : α × String}

lemma mem_addOnce {code other : String} {codes : List String} :
    other ∈ addOnce code codes ↔ other ∈ codes ∨ other = code := by
  unfold addOnce
  split
  · next h =>
    refine ⟨.inl, fun hother => hother.elim id ?_⟩
    rintro rfl
    simpa using h
  · rw [List.mem_append, List.mem_singleton]

/-- The labels of all folders of open blocks, and of the folders inside. -/
def openLabels : List (OpenGroup α) → List (α × String)
  | [] => []
  | .folder h p _ inner :: rest =>
    (h, p) :: (Folder.walkAll inner).map Folder.label ++ openLabels rest
  | .together _ :: rest => openLabels rest

/-- The labels of all folders so far. -/
def labels (n : Nesting α) : List (α × String) :=
  (Folder.walkAll n.folders).map Folder.label ++ openLabels n.blocks

lemma openHeads_eq (blocks : List (OpenGroup α)) :
    openHeads blocks = (openLabels blocks).map Prod.fst := by
  induction blocks with
  | nil => rfl
  | cons b rest ih =>
    cases b with
    | folder => simp [openHeads, openLabels, Folder.label, ih]
    | together => exact ih

lemma heads_eq (n : Nesting α) : n.heads = n.labels.map Prod.fst := by
  simp [heads, labels, openHeads_eq, Folder.label]

/-- The innermost open folder has its path as a label. -/
lemma exists_label_of_path? {path : String} (h : n.path? = some path) :
    ∃ head, (head, path) ∈ n.labels := by
  suffices hopen : ∃ head, (head, path) ∈ openLabels n.blocks by
    obtain ⟨head, hhead⟩ := hopen
    exact ⟨head, List.mem_append_right _ hhead⟩
  obtain ⟨folders, groups, blocks⟩ := n
  change innermost? blocks = some path at h
  induction blocks with
  | nil => cases h
  | cons b rest ih =>
    cases b with
    | folder head p ms inner =>
      obtain rfl := Option.some.inj h
      exact ⟨head, List.mem_cons_self⟩
    | together codes => exact ih h

/-! ### Lines that open and fill blocks -/

@[simp]
lemma openLabels_changeMembers (change : List String → List String)
    (blocks : List (OpenGroup α)) :
    openLabels (changeMembers change blocks) = openLabels blocks := by
  induction blocks with
  | nil => rfl
  | cons b rest ih =>
    cases b with
    | folder => rfl
    | together => exact ih

@[simp]
lemma openLabels_changeTogether (change : List String → List String)
    (blocks : List (OpenGroup α)) :
    openLabels (changeTogether change blocks) = openLabels blocks := by
  induction blocks with
  | nil => rfl
  | cons b rest ih =>
    cases b with
    | folder => simp only [changeTogether, openLabels, ih]
    | together => rfl

@[simp]
lemma labels_enterFolder (n : Nesting α) (code : String) :
    (n.enterFolder code).labels = n.labels := by
  simp [enterFolder, labels]

@[simp]
lemma labels_enterTogether (n : Nesting α) (change : List String → List String) :
    (n.enterTogether change).labels = n.labels := by
  simp [enterTogether, labels]

@[simp]
lemma labels_openTogether (n : Nesting α) : n.openTogether.labels = n.labels :=
  rfl

/-- A folder that is opened adds its label. -/
lemma mem_labels_openFolder {head : α} {name : String} (h : x ∈ n.labels) :
    x ∈ (n.openFolder head name).labels := by
  rcases List.mem_append.1 h with h | h
  · exact List.mem_append_left _ h
  · exact List.mem_append_right _ (List.mem_append_right _ h)

/-- No other label is added. -/
lemma mem_labels_of_openFolder {head : α} {name : String}
    (h : x ∈ (n.openFolder head name).labels) : x.1 = head ∨ x ∈ n.labels := by
  rcases List.mem_append.1 h with h | h
  · exact .inr (List.mem_append_left _ h)
  · rcases List.mem_cons.1 h with rfl | h
    · exact .inl rfl
    · exact .inr (List.mem_append_right _ h)

/-! ### Lines that close blocks -/

/-- A folder that is put into the innermost open one stands there when the text ends. -/
lemma unwind_attach? (h : attach? f blocks = some blocks') :
    unwind blocks' [] = unwind blocks [f] := by
  induction blocks generalizing blocks' with
  | nil => cases h
  | cons b rest ih =>
    cases b with
    | folder head p ms inner =>
      obtain rfl := Option.some.inj h
      rw [unwind, unwind, List.append_nil]
    | together codes =>
      obtain ⟨inner, hinner, rfl⟩ := Option.map_eq_some_iff.1 h
      show unwind inner [] = unwind rest [f]
      exact ih hinner

/-- Blocks without a folder leave what is inside. -/
lemma unwind_of_attach?_eq_none (h : attach? f blocks = none) (inside : List (Folder α)) :
    unwind blocks inside = inside := by
  induction blocks with
  | nil => rfl
  | cons b rest ih =>
    cases b with
    | folder => cases h
    | together codes => exact ih (Option.map_eq_none_iff.1 h)

lemma allFolders_attach (n : Nesting α) (f : Folder α) :
    (n.attach f).allFolders = n.folders ++ unwind n.blocks [f] := by
  unfold attach
  split
  · next blocks h => exact congrArg (n.folders ++ ·) (unwind_attach? h)
  · next h =>
    simp only [allFolders, unwind_of_attach?_eq_none h, List.append_nil]

/-- A block that is closed earlier gives the same folders. -/
theorem allFolders_close (n : Nesting α) : n.close.allFolders = n.allFolders := by
  obtain ⟨folders, groups, blocks⟩ := n
  cases blocks with
  | nil => rfl
  | cons b rest =>
    cases b with
    | folder head p ms inner =>
      refine (allFolders_attach _ _).trans ?_
      simp only [allFolders, unwind, List.append_nil]
    | together codes => rfl

lemma mem_label_unwind {inside : List (Folder α)} :
    x ∈ (Folder.walkAll (unwind blocks inside)).map Folder.label ↔
      x ∈ openLabels blocks ∨ x ∈ (Folder.walkAll inside).map Folder.label := by
  induction blocks generalizing inside with
  | nil => simp [unwind, openLabels]
  | cons b rest ih =>
    cases b with
    | folder head p ms inner =>
      rw [unwind, ih, Folder.walkAll_singleton, Folder.inner, Folder.walkAll_append, openLabels]
      simp only [List.map_cons, List.map_append, List.mem_cons, List.mem_append, List.cons_append]
      have hlabel : Folder.label (.node head p ms (inner ++ inside)) = (head, p) := rfl
      rw [hlabel]
      simp only [or_assoc, or_comm, or_left_comm]
    | together codes => exact ih

/-- The labels are those of the folders when the text ends. -/
theorem mem_labels_iff : x ∈ n.labels ↔ x ∈ (Folder.walkAll n.allFolders).map Folder.label := by
  rw [allFolders, Folder.walkAll_append, List.map_append, List.mem_append, mem_label_unwind, labels,
    List.mem_append]
  simp [Folder.walkAll]

lemma mem_labels_close : x ∈ n.close.labels ↔ x ∈ n.labels := by
  rw [mem_labels_iff, mem_labels_iff, allFolders_close]

end Nesting

/-! ### Groups -/

lemma mem_groupOf (groups : List (List String)) (code : String) : code ∈ groupOf groups code := by
  unfold groupOf
  cases h : groups.reverse.find? fun g => g.contains code with
  | none => exact List.mem_singleton_self code
  | some g => simpa using List.find?_some h

/-- The next step of `gather`: the group of a code comes to the result, unless the code is there. -/
def gatherStep (groups : List (List String)) (codes result : List String) (code : String) :
    List String :=
  if result.contains code then result
  else
    (groupOf groups code).foldl (fun result member =>
      if codes.contains member && !result.contains member then result ++ [member] else result)
      result

variable {groups : List (List String)} {codes result todo : List String} {code x : String}

lemma mem_foldl_group {members : List String} :
    x ∈ members.foldl (fun result member =>
        if codes.contains member && !result.contains member then result ++ [member] else result)
        result ↔
      x ∈ result ∨ x ∈ members ∧ x ∈ codes := by
  induction members generalizing result with
  | nil => simp
  | cons m rest ih =>
    rw [List.foldl_cons, ih, List.mem_cons]
    by_cases hm : m ∈ codes ∧ m ∉ result
    · rw [if_pos (by simpa using hm), List.mem_append, List.mem_singleton]
      grind
    · rw [if_neg (by simpa using hm)]
      grind

lemma mem_gatherStep :
    x ∈ gatherStep groups codes result code ↔
      x ∈ result ∨ code ∉ result ∧ x ∈ groupOf groups code ∧ x ∈ codes := by
  unfold gatherStep
  by_cases h : code ∈ result
  · simp [h]
  · rw [if_neg (by simpa using h), mem_foldl_group]
    simp [h]

lemma mem_foldl_gatherStep (h : x ∈ result ∨ x ∈ todo ∧ x ∈ codes) :
    x ∈ todo.foldl (gatherStep groups codes) result := by
  induction todo generalizing result with
  | nil => exact h.resolve_right fun h => nomatch h.1
  | cons c rest ih =>
    refine ih ?_
    rw [mem_gatherStep]
    rcases h with h | ⟨h, hcodes⟩
    · exact .inl (.inl h)
    · rcases List.mem_cons.1 h with rfl | h
      · by_cases hx : x ∈ result
        · exact .inl (.inl hx)
        · exact .inl (.inr ⟨hx, mem_groupOf groups x, hcodes⟩)
      · exact .inr ⟨h, hcodes⟩

lemma mem_of_mem_foldl_gatherStep (h : x ∈ todo.foldl (gatherStep groups codes) result) :
    x ∈ result ∨ x ∈ codes := by
  induction todo generalizing result with
  | nil => exact .inl h
  | cons c rest ih =>
    rcases ih h with h | h
    · exact (mem_gatherStep.1 h).imp_right fun h => h.2.2
    · exact .inr h

/-- Groups neither add nor drop codes. -/
theorem mem_gather : x ∈ gather groups codes ↔ x ∈ codes := by
  constructor
  · intro h
    exact (mem_of_mem_foldl_gatherStep h).resolve_left List.not_mem_nil
  · intro h
    exact mem_foldl_gatherStep (.inr ⟨h, h⟩)

end UmlDraw

/-! ## The codes in folders and in groups

Codes enter the innermost open folder and the innermost open group one by one, and blocks are closed
or left open when the text ends.  So what holds of every list of codes while a text is read holds of
the folders and groups that it has in the end, as soon as it holds of the empty list and of a list
with one more code. -/

namespace UmlDraw

variable {α : Type} {P P' Q Q' : List String → Prop}

/-- The codes of an open folder and of the folders in it have the first property, those of an open
group the second. -/
def OpenGroup.Lists (P Q : List String → Prop) : OpenGroup α → Prop
  | .folder _ _ ms inner => P ms ∧ ∀ f ∈ Folder.walkAll inner, P f.members
  | .together codes => Q codes

namespace Nesting

variable {n : Nesting α} {blocks blocks' : List (OpenGroup α)}

/-- The codes of each folder have the first property, those of each group the second, open blocks
included. -/
structure Lists (P Q : List String → Prop) (n : Nesting α) : Prop where
  folders : ∀ f ∈ Folder.walkAll n.folders, P f.members
  groups : ∀ g ∈ n.groups, Q g
  blocks : ∀ b ∈ n.blocks, b.Lists P Q

lemma lists_empty : Lists P Q ({} : Nesting α) where
  folders := fun _ h => nomatch h
  groups := fun _ h => nomatch h
  blocks := fun _ h => nomatch h

lemma Lists.imp (h : n.Lists P Q) (hP : ∀ ms, P ms → P' ms) (hQ : ∀ codes, Q codes → Q' codes) :
    n.Lists P' Q' where
  folders := fun f hf => hP _ (h.folders f hf)
  groups := fun g hg => hQ _ (h.groups g hg)
  blocks := by
    intro b hb
    have hlists := h.blocks b hb
    cases b with
    | folder => exact ⟨hP _ hlists.1, fun f hf => hP _ (hlists.2 f hf)⟩
    | together => exact hQ _ hlists

lemma Lists.openFolder (h : n.Lists P Q) (hP : P []) (head : α) (name : String) :
    (n.openFolder head name).Lists P Q where
  folders := h.folders
  groups := h.groups
  blocks := List.forall_mem_cons.2 ⟨⟨hP, fun _ hf => nomatch hf⟩, h.blocks⟩

lemma Lists.openTogether (h : n.Lists P Q) (hQ : Q []) : n.openTogether.Lists P Q where
  folders := h.folders
  groups := h.groups
  blocks := List.forall_mem_cons.2 ⟨hQ, h.blocks⟩

lemma lists_changeMembers {change : List String → List String} (hP : ∀ ms, P ms → P (change ms))
    (h : ∀ b ∈ blocks, b.Lists P Q) : ∀ b ∈ changeMembers change blocks, b.Lists P Q := by
  induction blocks with
  | nil => exact h
  | cons b rest ih =>
    obtain ⟨hb, hrest⟩ := List.forall_mem_cons.1 h
    cases b with
    | folder => exact List.forall_mem_cons.2 ⟨⟨hP _ hb.1, hb.2⟩, hrest⟩
    | together => exact List.forall_mem_cons.2 ⟨hb, ih hrest⟩

lemma lists_changeTogether {change : List String → List String}
    (hQ : ∀ codes, Q codes → Q (change codes)) (h : ∀ b ∈ blocks, b.Lists P Q) :
    ∀ b ∈ changeTogether change blocks, b.Lists P Q := by
  induction blocks with
  | nil => exact h
  | cons b rest ih =>
    obtain ⟨hb, hrest⟩ := List.forall_mem_cons.1 h
    cases b with
    | folder => exact List.forall_mem_cons.2 ⟨hb, ih hrest⟩
    | together => exact List.forall_mem_cons.2 ⟨hQ _ hb, hrest⟩

lemma Lists.enterFolder (h : n.Lists P Q) {code : String} (hP : ∀ ms, P ms → P (addOnce code ms)) :
    (n.enterFolder code).Lists P Q :=
  ⟨h.folders, h.groups, lists_changeMembers hP h.blocks⟩

lemma Lists.enterTogether (h : n.Lists P Q) {change : List String → List String}
    (hQ : ∀ codes, Q codes → Q (change codes)) : (n.enterTogether change).Lists P Q :=
  ⟨h.folders, h.groups, lists_changeTogether hQ h.blocks⟩

/-- A code enters a list of codes at most once. -/
lemma nodup_addOnce {codes : List String} (h : codes.Nodup) (code : String) :
    (addOnce code codes).Nodup := by
  unfold addOnce
  split
  · exact h
  · next hnew =>
    refine List.Nodup.append h (List.nodup_singleton code) ?_
    simpa using hnew

/-! ### Closed blocks -/

lemma forall_walkAll_concat {p : Folder α → Prop} {folders : List (Folder α)} {f : Folder α}
    (h : ∀ g ∈ Folder.walkAll folders, p g) (hf : ∀ g ∈ Folder.walkAll [f], p g) :
    ∀ g ∈ Folder.walkAll (folders ++ [f]), p g := by
  rw [Folder.walkAll_append]
  exact List.forall_mem_append.2 ⟨h, hf⟩

lemma lists_attach? {f : Folder α} (h : ∀ b ∈ blocks, b.Lists P Q)
    (hf : ∀ g ∈ Folder.walkAll [f], P g.members) (hblocks : attach? f blocks = some blocks') :
    ∀ b ∈ blocks', b.Lists P Q := by
  induction blocks generalizing blocks' with
  | nil => cases hblocks
  | cons b rest ih =>
    obtain ⟨hb, hrest⟩ := List.forall_mem_cons.1 h
    cases b with
    | folder head p ms inner =>
      obtain rfl := Option.some.inj hblocks
      exact List.forall_mem_cons.2 ⟨⟨hb.1, forall_walkAll_concat hb.2 hf⟩, hrest⟩
    | together codes =>
      obtain ⟨inner, hinner, rfl⟩ := Option.map_eq_some_iff.1 hblocks
      exact List.forall_mem_cons.2 ⟨hb, ih hrest hinner⟩

lemma Lists.attach (h : n.Lists P Q) {f : Folder α}
    (hf : ∀ g ∈ Folder.walkAll [f], P g.members) : (n.attach f).Lists P Q := by
  unfold Nesting.attach
  split
  · next blocks hblocks => exact ⟨h.folders, h.groups, lists_attach? h.blocks hf hblocks⟩
  · exact ⟨forall_walkAll_concat h.folders hf, h.groups, h.blocks⟩

/-- Closing a block changes no list of codes. -/
theorem Lists.close (h : n.Lists P Q) : n.close.Lists P Q := by
  obtain ⟨folders, groups, blocks⟩ := n
  cases blocks with
  | nil => exact h
  | cons b rest =>
    obtain ⟨hb, hrest⟩ := List.forall_mem_cons.1 h.blocks
    cases b with
    | folder head p ms inner =>
      have hopen : Lists P Q { folders := folders, groups := groups, blocks := rest } :=
        ⟨h.folders, h.groups, hrest⟩
      refine hopen.attach ?_
      rw [Folder.walkAll_singleton]
      exact List.forall_mem_cons.2 hb
    | together codes =>
      refine ⟨h.folders, fun g hg => ?_, hrest⟩
      dsimp only [Nesting.close] at hg
      split at hg
      · exact h.groups g hg
      · rcases List.mem_append.1 hg with hg | hg
        · exact h.groups g hg
        · exact List.mem_singleton.1 hg ▸ hb

lemma lists_unwind {inside : List (Folder α)} (h : ∀ b ∈ blocks, b.Lists P Q)
    (hinside : ∀ f ∈ Folder.walkAll inside, P f.members) :
    ∀ f ∈ Folder.walkAll (unwind blocks inside), P f.members := by
  induction blocks generalizing inside with
  | nil => exact hinside
  | cons b rest ih =>
    obtain ⟨hb, hrest⟩ := List.forall_mem_cons.1 h
    cases b with
    | folder head p ms inner =>
      refine ih hrest ?_
      rw [Folder.walkAll_singleton, Folder.inner, Folder.walkAll_append]
      exact List.forall_mem_cons.2 ⟨hb.1, List.forall_mem_append.2 ⟨hb.2, hinside⟩⟩
    | together => exact ih hrest hinside

/-- The codes of the folders when the text ends. -/
theorem Lists.allFolders (h : n.Lists P Q) :
    ∀ f ∈ Folder.walkAll n.allFolders, P f.members := by
  rw [Nesting.allFolders, Folder.walkAll_append]
  exact List.forall_mem_append.2 ⟨h.folders, lists_unwind h.blocks (List.forall_mem_nil _)⟩

end Nesting
end UmlDraw

/-! ## Where folders stand

A folder stands in a list of folders with some of them around it and some behind it.  A path may
belong to several folders, as a block may be opened again under its name; the last of them has none
with its path behind it.  Nor has it one around it: the path of a folder is longer than those of the
folders around it. -/

namespace UmlDraw

variable {α : Type}

namespace Folder

/-! ### The folders around a folder and behind it -/

/-- A folder stands in a list of folders, as one of them or inside of one.  The first list has the
folders around it, from the outermost one on, and the second one all folders that start behind its
end. -/
inductive Stands (f : Folder α) : List (Folder α) → List (Folder α) → List (Folder α) → Prop
  | here (rest : List (Folder α)) : Stands f (f :: rest) [] (walkAll rest)
  | inside {p : Folder α} {rest around behind : List (Folder α)}
      (h : Stands f p.inner around behind) :
      Stands f (p :: rest) (p :: around) (behind ++ walkAll rest)
  | next {p : Folder α} {rest around behind : List (Folder α)}
      (h : Stands f rest around behind) : Stands f (p :: rest) around behind

variable {f : Folder α} {ps around behind : List (Folder α)}

/-- A walk comes to the folder and what is in it, and then to the folders behind. -/
lemma Stands.exists_walkAll (h : Stands f ps around behind) :
    ∃ before, walkAll ps = before ++ (walkAll [f] ++ behind) := by
  induction h with
  | here rest => exact ⟨[], by simp [walkAll]⟩
  | @inside p rest around behind _ ih =>
    obtain ⟨before, hbefore⟩ := ih
    refine ⟨p :: before, ?_⟩
    rw [walkAll, walk_eq, hbefore]
    simp
  | @next p rest around behind _ ih =>
    obtain ⟨before, hbefore⟩ := ih
    refine ⟨p.walk ++ before, ?_⟩
    rw [walkAll, hbefore]
    simp

lemma Stands.mem (h : Stands f ps around behind) : f ∈ walkAll ps := by
  obtain ⟨before, hbefore⟩ := h.exists_walkAll
  simp [hbefore, walkAll_singleton]

lemma Stands.mem_around (h : Stands f ps around behind) {p : Folder α} (hp : p ∈ around) :
    p ∈ walkAll ps ∧ f ∈ walkAll p.inner := by
  induction h with
  | here rest => cases hp
  | inside h ih =>
    rw [walkAll, walk_eq]
    rcases List.mem_cons.1 hp with rfl | hp
    · exact ⟨by simp, h.mem⟩
    · exact ⟨by simp [ih hp], (ih hp).2⟩
  | next h ih => exact ⟨List.mem_append_right _ (ih hp).1, (ih hp).2⟩

lemma allMembers_singleton (p : Folder α) : allMembers [p] = p.members ++ allMembers p.inner := by
  rw [allMembers, walkAll_singleton, List.flatMap_cons, allMembers]

/-- There is a last one of the folders with a property. -/
theorem exists_stands_last (P : Folder α → Prop) : (ps : List (Folder α)) →
    (∃ p ∈ walkAll ps, P p) →
    ∃ f around behind, Stands f ps around behind ∧ P f ∧ ∀ q ∈ behind, ¬ P q
  | [], h => by
    obtain ⟨_, hp, -⟩ := h
    cases hp
  | .node head path members inner :: rest, h => by
    by_cases hrest : ∃ q ∈ walkAll rest, P q
    · obtain ⟨f, around, behind, hf, hP, hbehind⟩ := exists_stands_last P rest hrest
      exact ⟨f, around, behind, .next hf, hP, hbehind⟩
    have hrest' : ∀ q ∈ walkAll rest, ¬ P q := fun q hq hP => hrest ⟨q, hq, hP⟩
    by_cases hinner : ∃ q ∈ walkAll inner, P q
    · obtain ⟨f, around, behind, hf, hP, hbehind⟩ := exists_stands_last P inner hinner
      exact ⟨f, _, _, .inside hf, hP,
        List.forall_mem_append.2 ⟨hbehind, hrest'⟩⟩
    · obtain ⟨p, hp, hP⟩ := h
      refine ⟨_, _, _, .here rest, ?_, hrest'⟩
      rw [walkAll, walk, List.mem_append, List.mem_cons] at hp
      rcases hp with (rfl | hp) | hp
      · exact hP
      · exact absurd ⟨p, hp, hP⟩ hinner
      · exact absurd ⟨p, hp, hP⟩ hrest

lemma walkAll_inner_subset {p : Folder α} (hp : p ∈ walkAll ps) : walkAll p.inner ⊆ walkAll ps := by
  obtain ⟨_, _, _, hstands, rfl, -⟩ := exists_stands_last (· = p) ps ⟨p, hp, rfl⟩
  obtain ⟨before, hwalk⟩ := hstands.exists_walkAll
  intro q hq
  simp [hwalk, walkAll_singleton, hq]

/-! ### Paths that get longer -/

/-- The paths of the folders in a folder are longer than its own. -/
def Deepens (ps : List (Folder α)) : Prop :=
  ∀ p ∈ walkAll ps, ∀ q ∈ walkAll p.inner, p.path.length < q.path.length

lemma deepens_nil : Deepens ([] : List (Folder α)) :=
  fun _ h => nomatch h

lemma deepens_append {qs : List (Folder α)} (hps : Deepens ps) (hqs : Deepens qs) :
    Deepens (ps ++ qs) := by
  unfold Deepens
  rw [walkAll_append]
  exact List.forall_mem_append.2 ⟨hps, hqs⟩

lemma deepens_singleton {head : α} {path : String} {members : List String}
    {inner : List (Folder α)} (hinner : Deepens inner)
    (hpath : ∀ q ∈ walkAll inner, path.length < q.path.length) :
    Deepens [.node head path members inner] := by
  unfold Deepens
  rw [walkAll_singleton]
  exact List.forall_mem_cons.2 ⟨hpath, hinner⟩

lemma Stands.path_not_mem_around (h : Stands f ps around behind) (hps : Deepens ps)
    {q : Folder α} (hq : q ∈ walkAll [f]) : q.path ∉ around.map Folder.path := by
  intro hmem
  obtain ⟨p, hp, hpath⟩ := List.mem_map.1 hmem
  obtain ⟨hwalk, hf⟩ := h.mem_around hp
  have hlength := hps p hwalk f hf
  rw [walkAll_singleton] at hq
  rcases List.mem_cons.1 hq with rfl | hq
  · exact absurd (congrArg String.length hpath) (Nat.ne_of_lt hlength)
  · have hinner := hps f h.mem q hq
    exact absurd (congrArg String.length hpath) (Nat.ne_of_lt (Nat.lt_trans hlength hinner))

end Folder

/-! ### The paths of a text

A folder takes its path from the innermost open one when it is opened, and it is put into the same
one when it is closed.  So the paths get longer from one open folder to the next one, and from there
to the folders inside. -/

namespace Nesting

open Folder

variable {n : Nesting α} {blocks blocks' : List (OpenGroup α)}

/-- The paths of open folders and of the folders in them get longer inwards. -/
def OpenDeepens : List (OpenGroup α) → Prop
  | [] => True
  | .folder _ path _ inside :: rest =>
    Folder.Deepens inside ∧ (∀ q ∈ walkAll inside, path.length < q.path.length) ∧
      (∀ outer ∈ innermost? rest, outer.length < path.length) ∧ OpenDeepens rest
  | .together _ :: rest => OpenDeepens rest

/-- The paths of all folders get longer inwards, open ones included. -/
structure Deepens (n : Nesting α) : Prop where
  folders : Folder.Deepens n.folders
  blocks : OpenDeepens n.blocks

lemma deepens_empty : Deepens ({} : Nesting α) :=
  ⟨deepens_nil, trivial⟩

lemma innermost?_changeMembers (change : List String → List String)
    (blocks : List (OpenGroup α)) :
    innermost? (changeMembers change blocks) = innermost? blocks := by
  induction blocks with
  | nil => rfl
  | cons b rest ih =>
    cases b with
    | folder => rfl
    | together => exact ih

lemma innermost?_changeTogether (change : List String → List String)
    (blocks : List (OpenGroup α)) :
    innermost? (changeTogether change blocks) = innermost? blocks := by
  induction blocks with
  | nil => rfl
  | cons b rest ih => cases b <;> rfl

lemma openDeepens_changeMembers (h : OpenDeepens blocks) (change : List String → List String) :
    OpenDeepens (changeMembers change blocks) := by
  induction blocks with
  | nil => exact h
  | cons b rest ih =>
    cases b with
    | folder => exact h
    | together => exact ih h

lemma openDeepens_changeTogether (h : OpenDeepens blocks) (change : List String → List String) :
    OpenDeepens (changeTogether change blocks) := by
  induction blocks with
  | nil => exact h
  | cons b rest ih =>
    cases b with
    | folder =>
      obtain ⟨hinner, hpath, houter, hrest⟩ := h
      refine ⟨hinner, hpath, ?_, ih hrest⟩
      rwa [innermost?_changeTogether]
    | together => exact h

lemma Deepens.enter (h : n.Deepens) (code : String) (change : List String → List String) :
    ((n.enterFolder code).enterTogether change).Deepens :=
  ⟨h.folders, openDeepens_changeTogether (openDeepens_changeMembers h.blocks _) _⟩

lemma Deepens.openTogether (h : n.Deepens) : n.openTogether.Deepens :=
  ⟨h.folders, h.blocks⟩

lemma Deepens.openFolder (h : n.Deepens) (head : α) (name : String) :
    (n.openFolder head name).Deepens := by
  refine ⟨h.folders, deepens_nil, (fun _ hq => nomatch hq), ?_, h.blocks⟩
  intro outer houter
  have houter : n.path? = some outer := houter
  have hpoint : ".".length = 1 := rfl
  rw [houter]
  simp only [String.length_append, hpoint]
  omega

/-- A folder is put into the innermost open one. -/
lemma openDeepens_attach? {f : Folder α} (h : OpenDeepens blocks) (hf : Folder.Deepens [f])
    (hpath : ∀ outer ∈ innermost? blocks, ∀ q ∈ walkAll [f], outer.length < q.path.length)
    (hblocks : attach? f blocks = some blocks') :
    OpenDeepens blocks' ∧ innermost? blocks' = innermost? blocks := by
  induction blocks generalizing blocks' with
  | nil => cases hblocks
  | cons b rest ih =>
    cases b with
    | folder head path members inner =>
      obtain rfl := Option.some.inj hblocks
      obtain ⟨hinner, hown, houter, hrest⟩ := h
      exact ⟨⟨deepens_append hinner hf, forall_walkAll_concat hown (hpath path rfl), houter, hrest⟩,
        rfl⟩
    | together codes =>
      obtain ⟨rest', hrest', rfl⟩ := Option.map_eq_some_iff.1 hblocks
      show OpenDeepens rest' ∧ innermost? rest' = innermost? rest
      exact ih h hpath hrest'

lemma Deepens.attach (h : n.Deepens) {f : Folder α} (hf : Folder.Deepens [f])
    (hpath : ∀ outer ∈ n.path?, ∀ q ∈ walkAll [f], outer.length < q.path.length) :
    (n.attach f).Deepens := by
  unfold Nesting.attach
  split
  · next blocks hblocks => exact ⟨h.folders, (openDeepens_attach? h.blocks hf hpath hblocks).1⟩
  · exact ⟨deepens_append h.folders hf, h.blocks⟩

lemma Deepens.close (h : n.Deepens) : n.close.Deepens := by
  obtain ⟨folders, groups, blocks⟩ := n
  cases blocks with
  | nil => exact h
  | cons b rest =>
    cases b with
    | folder head path members inner =>
      obtain ⟨hinner, hown, houter, hrest⟩ := h.blocks
      have hopen : Deepens { folders := folders, groups := groups, blocks := rest } :=
        ⟨h.folders, hrest⟩
      refine hopen.attach (deepens_singleton hinner hown) ?_
      intro outer hmem
      rw [walkAll_singleton]
      exact List.forall_mem_cons.2
        ⟨houter outer hmem, fun q hq => Nat.lt_trans (houter outer hmem) (hown q hq)⟩
    | together codes => exact ⟨h.folders, h.blocks⟩

lemma deepens_unwind {inside : List (Folder α)} (h : OpenDeepens blocks)
    (hinside : Folder.Deepens inside)
    (hpath : ∀ outer ∈ innermost? blocks, ∀ q ∈ walkAll inside, outer.length < q.path.length) :
    Folder.Deepens (unwind blocks inside) := by
  induction blocks generalizing inside with
  | nil => exact hinside
  | cons b rest ih =>
    cases b with
    | folder head path members inner =>
      obtain ⟨hinner, hown, houter, hrest⟩ := h
      have hall : ∀ q ∈ walkAll (inner ++ inside), path.length < q.path.length := by
        rw [walkAll_append]
        exact List.forall_mem_append.2 ⟨hown, hpath path rfl⟩
      refine ih hrest (deepens_singleton (deepens_append hinner hinside) hall) ?_
      intro outer hmem
      rw [walkAll_singleton]
      exact List.forall_mem_cons.2
        ⟨houter outer hmem, fun q hq => Nat.lt_trans (houter outer hmem) (hall q hq)⟩
    | together codes => exact ih h hinside hpath

/-- The paths of the folders when the text ends. -/
theorem Deepens.allFolders (h : n.Deepens) : Folder.Deepens n.allFolders :=
  deepens_append h.folders (deepens_unwind h.blocks deepens_nil fun _ _ _ hq => nomatch hq)

/-- What a line can do to the folders and groups. -/
inductive Moves (n : Nesting α) : Nesting α → Prop
  | stay : Moves n n
  | enter (code : String) (change : List String → List String) :
      Moves n ((n.enterFolder code).enterTogether change)
  | openTogether : Moves n n.openTogether
  | openFolder (head : α) (name : String) : Moves n (n.openFolder head name)
  | close : Moves n n.close

theorem Deepens.moves {n' : Nesting α} (h : n.Deepens) (hmoves : n.Moves n') : n'.Deepens := by
  cases hmoves with
  | stay => exact h
  | enter code change => exact h.enter code change
  | openTogether => exact h.openTogether
  | openFolder head name => exact h.openFolder head name
  | close => exact h.close

end Nesting
end UmlDraw
