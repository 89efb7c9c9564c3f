/-
# The codes of marks

A mark, such as the initial one, has no name of its own; its code is made of a word for the mark and
the name of the scope in which it is written.  The name of a part of a composite state is the code
of the state, with a number behind it for the later regions.  So the codes tell the scopes apart as
long as no state has a code that looks like such a name.

The main statements are

* `Scope.name_eq_iff`: when two scopes have the same name;
* `Diagram.marks_read`: what the codes of marks tell;
* `Diagram.same_mark_region`: a text in which two scopes share a mark.
-/
import UmlDraw.Proofs.Drawing.Canvas
import UmlDraw.Proofs.State.Repeated

namespace UmlDraw
namespace State

/-! ### The names of scopes -/

namespace Scope

/-- The name of a later region of a composite state. -/
def regionName (holder : String) (n : Nat) : String :=
  holder ++ "_r" ++ String.ofList (Decimal.digits n)

/-- The name of a scope, which the codes of the marks in it contain. -/
def name : Scope → String
  | top => "__top__"
  | part holder 0 => holder
  | part holder (n + 1) => regionName holder (n + 1)

/-- The composite state of a scope. -/
def holder? : Scope → Option String
  | top => none
  | part holder _ => some holder

/-- A composite state has a code like the name of another scope: of the top level, or of a later
region. -/
inductive Clash : Scope → Scope → Prop
  | top : Clash top (part "__top__" 0)
  | region (holder : String) (n : Nat) :
      Clash (part holder (n + 1)) (part (regionName holder (n + 1)) 0)

/-- The digits at the end of a text, from the last one on. -/
def lastDigits (s : String) : List Char :=
  s.toList.reverse.takeWhile Char.isDigit

lemma lastDigits_regionName (holder : String) (n : Nat) :
    lastDigits (regionName holder n) = (Decimal.digits n).reverse := by
  have hdigits : ∀ c ∈ (Decimal.digits n).reverse, c.isDigit = true := by
    intro c hc
    exact Nat.isDigit_of_mem_toDigits (by decide) (by decide) (List.mem_reverse.1 hc)
  have hchars : (regionName holder n).toList.reverse =
      (Decimal.digits n).reverse ++ 'r' :: '_' :: holder.toList.reverse := by
    simp [regionName]
  rw [lastDigits, hchars, List.takeWhile_append_of_pos hdigits]
  exact List.append_nil _

lemma regionName_inj {holder holder' : String} {m n : Nat} :
    regionName holder m = regionName holder' n ↔ holder = holder' ∧ m = n := by
  constructor
  · intro h
    have hdigits := congrArg lastDigits h
    rw [lastDigits_regionName, lastDigits_regionName, List.reverse_inj] at hdigits
    obtain rfl := Document.digits_injective hdigits
    exact ⟨(String.append_left_inj _).1 ((String.append_left_inj _).1 h), rfl⟩
  · rintro ⟨rfl, rfl⟩
    rfl

/-- A text without digits at its end is not the name of a later region. -/
lemma ne_regionName {s : String} (h : lastDigits s = []) (holder : String) (n : Nat) :
    s ≠ regionName holder n := by
  rintro rfl
  rw [lastDigits_regionName, List.reverse_eq_nil_iff] at h
  exact Nat.toDigits_ne_nil h

/-- Two scopes have the same name if and only if they are the same or their names clash. -/
theorem name_eq_iff {s s' : Scope} : s.name = s'.name ↔ s = s' ∨ s.Clash s' ∨ s'.Clash s := by
  have htop : ∀ holder n, "__top__" ≠ regionName holder n := ne_regionName rfl
  constructor
  · intro h
    cases s with
    | top =>
      cases s' with
      | top => exact .inl rfl
      | part q j =>
        cases j with
        | zero =>
          obtain rfl : "__top__" = q := h
          exact .inr (.inl .top)
        | succ j => exact absurd h (htop q (j + 1))
    | part p i =>
      cases s' with
      | top =>
        cases i with
        | zero =>
          obtain rfl : p = "__top__" := h
          exact .inr (.inr .top)
        | succ i => exact absurd h.symm (htop p (i + 1))
      | part q j =>
        cases i with
        | zero =>
          cases j with
          | zero =>
            obtain rfl : p = q := h
            exact .inl rfl
          | succ j =>
            obtain rfl : p = regionName q (j + 1) := h
            exact .inr (.inr (.region q j))
        | succ i =>
          cases j with
          | zero =>
            obtain rfl : regionName p (i + 1) = q := h
            exact .inr (.inl (.region p i))
          | succ j =>
            obtain ⟨rfl, hij⟩ := regionName_inj.1 h
            rw [hij]
            exact .inl rfl
  · rintro (rfl | h | h)
    · rfl
    · cases h <;> rfl
    · cases h <;> rfl

end Scope

/-! ### The codes of marks -/

namespace Reader

/-- The words for marks. -/
def markWords : List String :=
  ["initial", "final", "history", "deephistory"]

/-- The code of a mark tells its word and the name of its scope. -/
lemma markCode_inj {word word' name name' : String} (hword : word ∈ markWords)
    (hword' : word' ∈ markWords) :
    markCode word name = markCode word' name' ↔ word = word' ∧ name = name' := by
  constructor
  · intro h
    -- the words differ in their first characters
    have hwords : word = word' := by
      have hchars := congrArg (fun s => s.toList[2]?) h
      simp only [markWords, List.mem_cons, List.not_mem_nil, or_false] at hword hword'
      rcases hword with rfl | rfl | rfl | rfl <;> rcases hword' with rfl | rfl | rfl | rfl <;>
        first | rfl | simp [markCode] at hchars
    subst hwords
    refine ⟨rfl, ?_⟩
    exact (String.append_right_inj _).1 ((String.append_left_inj _).1 h)
  · rintro ⟨rfl, rfl⟩
    rfl

/-- The characters with which the codes of marks begin. -/
def markStart : List Char :=
  ['_', '_']

lemma markStart_prefix_markCode (word name : String) :
    markStart <+: (markCode word name).toList := by
  simp [markStart, markCode]

end Reader

namespace EndPoint

/-- The word for a mark. -/
def word? (isSource : Bool) : EndPoint → Option String
  | terminal => some (if isSource then "initial" else "final")
  | history deep => some (Reader.historyMark deep).1
  | _ => none

/-- The code of the element that an end of a transition speaks of. -/
def codeIn (s : Scope) (isSource : Bool) : EndPoint → String
  | terminal => Reader.markCode (if isSource then "initial" else "final") s.name
  | history deep => Reader.markCode (Reader.historyMark deep).1 s.name
  | historyOf owner deep => Reader.markCode (Reader.historyMark deep).1 owner
  | bar code => code
  | state code => code

lemma codeIn_of_word? {p : EndPoint} {isSource : Bool} {word : String}
    (h : p.word? isSource = some word) (s : Scope) :
    p.codeIn s isSource = Reader.markCode word s.name := by
  cases p with
  | terminal | history => rw [← Option.some.inj h, codeIn]
  | historyOf | bar | state => cases h

lemma historyMark_mem_markWords (deep : Bool) :
    (Reader.historyMark deep).1 ∈ Reader.markWords := by
  cases deep <;> decide

lemma mem_markWords_of_word? {p : EndPoint} {isSource : Bool} {word : String}
    (h : p.word? isSource = some word) : word ∈ Reader.markWords := by
  cases p with
  | terminal =>
    rw [← Option.some.inj h]
    cases isSource <;> decide
  | history deep =>
    rw [← Option.some.inj h]
    exact historyMark_mem_markWords deep
  | historyOf | bar | state => cases h

end EndPoint

/-- The marks of a written transition: their words and their codes. -/
def Writing.marks (w : Writing) : List (String × String) :=
  ((w.source.word? true).map fun word => (word, w.transition.source)).toList ++
    ((w.target.word? false).map fun word => (word, w.transition.target)).toList

namespace Reader

variable {r : Reader}

/-- The name in the codes of marks is that of the scope. -/
lemma scope_eq_name (hr : r.Sound)
    (hcode : ∀ k e, r.diagram.elements.get? k = some e → e.code = k) :
    r.scope = r.openScope.name := by
  cases hstack : r.stack with
  | nil => simp [scope, parent?, openScope, hstack, Scope.name]
  | cons p outer =>
    obtain ⟨e, he⟩ := Keyed.mem_keys_iff.1 (hr.stack p (by simp [hstack]))
    have hcontents : r.diagram.nest.contents p = e.contents := Diagram.contentsOf_of_get? he
    simp only [scope, parent?, openScope, hstack, List.head?_cons, Option.bind_some, he,
      Nest.openIndex, hcontents, Element.scope, hcode p e he]
    cases e.contents with
    | direct ms ts => rfl
    | concurrent first middle last =>
      simp [Contents.regions, Contents.closed, Scope.name, Scope.regionName]

lemma openScope_resolve (hr : r.Sound) (isSource : Bool) (p : EndPoint) :
    (r.resolve isSource p).1.openScope = r.openScope := by
  have hnest := nest_resolve hr isSource p
  unfold openScope
  rw [(goes_resolve hr isSource p).stack, hnest]
  cases r.stack with
  | nil => rfl
  | cons q outer => simp only [Nest.openIndex_places]

lemma resolve_snd (hr : r.Sound)
    (hcode : ∀ k e, r.diagram.elements.get? k = some e → e.code = k) (isSource : Bool)
    (p : EndPoint) : (r.resolve isSource p).2 = p.codeIn r.openScope isSource := by
  have hscope := scope_eq_name hr hcode
  cases p with
  | terminal | history => simp only [resolve, EndPoint.codeIn, hscope]
  | historyOf | bar | state => rfl

end Reader

/-! ### The names in a text -/

/-- The codes of the states that an end of a transition names. -/
def EndPoint.names : EndPoint → List String
  | historyOf owner _ => [owner]
  | bar code => [code]
  | state code => [code]
  | _ => []

/-- The codes of the states that a line names. -/
def Line.names : Line → List String
  | composite d => [d.name.code]
  | declare d _ => [d.name.code]
  | describe name _ => [name.code]
  | transition source target _ => source.point.names ++ target.point.names
  | _ => []

/-- Why an element is placed in a scope: it has a name, or it is a mark of the scope or of a state
that has a name. -/
inductive Origin (names : List String) : Scope → String → Prop
  | name {c : String} (hc : c ∈ names) (s : Scope) : Origin names s c
  | mark {word : String} (hword : word ∈ Reader.markWords) (s : Scope)
      (hs : ∀ k, s.holder? = some k → k ∈ names) : Origin names s (Reader.markCode word s.name)
  | ofState {word owner : String} (hword : word ∈ Reader.markWords) (howner : owner ∈ names)
      (i : Nat) : Origin names (.part owner i) (Reader.markCode word owner)

namespace Reader

/-- The codes of the states that a line names. -/
def named (r : Reader) (line : SourceLine) : List String :=
  ((r.meaning? line).map Line.names).getD []

/-- The codes of the states that lines name, in order. -/
def allNamed : Reader → List SourceLine → List String
  | _, [] => []
  | r, line :: rest => r.named line ++ allNamed (r.step line) rest

/-- What is known between two lines: the elements have their codes, and the open composite states
have the given names. -/
structure Ready (r : Reader) (names : List String) : Prop where
  sound : r.Sound
  consistent : r.diagram.Consistent
  stack : r.stack ⊆ names

variable {r : Reader} {names : List String}

/-- A line opens a composite state that it names, and no other one. -/
lemma stack_step_subset (hr : r.Sound) (line : SourceLine) :
    (r.step line).stack ⊆ r.stack ++ r.named line := by
  unfold named
  cases hmeaning : r.meaning? line with
  | none =>
    rw [(step_of_meaning?_eq_none hmeaning).1]
    exact List.subset_append_left _ _
  | some l =>
    rw [(step_of_meaning?_eq_some hmeaning).2]
    have hsame : ∀ {r' : Reader}, r'.stack = r.stack → r'.stack ⊆ r.stack ++ l.names := by
      intro r' h
      rw [h]
      exact List.subset_append_left _ _
    simp only [Option.map_some, Option.getD_some]
    cases l with
    | title | direction | hideEmpty | nothing => exact hsame rfl
    | composite d =>
      have hstack := (goes_declare hr d []).stack
      intro p hp
      rcases List.mem_cons.1 hp with rfl | hp
      · exact List.mem_append_right _ (List.mem_singleton_self _)
      · rw [hstack] at hp
        exact List.mem_append_left _ hp
    | blockEnd => exact fun p hp => List.mem_append_left _ (List.mem_of_mem_tail hp)
    | separator s => exact hsame (goes_divide r s).stack
    | declare d description => exact hsame (goes_declare hr d _).stack
    | note n => cases n <;> exact hsame rfl
    | transition source target head =>
      have hsource := goes_resolve hr true source.point
      have htarget := goes_resolve (hsource.sound hr) false target.point
      exact hsame ((stack_addTransition _ _).trans (htarget.stack.trans hsource.stack))
    | describe name text =>
      exact hsame (goes_describe hr name.code name.display .state
        (f := fun e => { e with descriptions := e.descriptions ++ [text] })
        fun _ => ⟨rfl, rfl, rfl, fun _ h => h⟩).stack

lemma Ready.step (h : r.Ready names) {line : SourceLine} (hline : r.named line ⊆ names) :
    (r.step line).Ready names where
  sound := (builds_step h.sound line).2
  consistent := (builds_step h.sound line).1.consistent h.consistent
  stack := by
    intro p hp
    rcases List.mem_append.1 (stack_step_subset h.sound line hp) with hp | hp
    · exact h.stack hp
    · exact hline hp

lemma Ready.resolve (h : r.Ready names) (isSource : Bool) (p : EndPoint) :
    (r.resolve isSource p).1.Ready names where
  sound := (goes_resolve h.sound isSource p).sound h.sound
  consistent := (goes_resolve h.sound isSource p).builds.consistent h.consistent
  stack := by
    rw [(goes_resolve h.sound isSource p).stack]
    exact h.stack

lemma Ready.openScope (h : r.Ready names) : ∀ k, r.openScope.holder? = some k → k ∈ names := by
  intro k hk
  unfold Reader.openScope at hk
  cases hstack : r.stack with
  | nil =>
    rw [hstack] at hk
    cases hk
  | cons p outer =>
    rw [hstack] at hk
    obtain rfl : p = k := Option.some.inj hk
    exact h.stack (by simp [hstack])

lemma locate_of_mem_inOpen {c : String} {q : Placement} (h : q ∈ r.inOpen c) :
    r.diagram.nest.locate q = (r.openScope, c) := by
  unfold inOpen at h
  unfold openScope
  cases hstack : r.stack with
  | nil =>
    rw [hstack] at h
    cases h
  | cons p outer =>
    simp only [hstack] at h
    split at h
    · cases h
    · rw [List.mem_singleton.1 h]
      rfl

/-- What is placed in the open part goes there. -/
lemma mem_inOpen {k c : String} {i : Nat} (hscope : r.openScope = .part k i) (hc : c ∉ r.stack) :
    ∃ q ∈ r.inOpen c, r.diagram.nest.locate q = (.part k i, c) := by
  unfold openScope at hscope
  unfold inOpen
  cases hstack : r.stack with
  | nil =>
    rw [hstack] at hscope
    cases hscope
  | cons p outer =>
    rw [hstack] at hscope hc
    have hclosed : ¬ (p :: outer).contains c = true := by simpa using hc
    refine ⟨⟨p, c⟩, ?_, ?_⟩
    · simp only [if_neg hclosed, List.mem_singleton]
    · rw [← hscope]
      rfl

lemma locate_resolve (hr : r.Sound) (isSource : Bool) (p : EndPoint) :
    (r.resolve isSource p).1.diagram.nest.locate = r.diagram.nest.locate := by
  funext q
  have hnest := nest_resolve hr isSource p
  rw [hnest, Nest.locate, Nest.locate, Nest.openIndex_places]

/-- An end of a transition places an element with a name or a mark. -/
lemma origin_endPlacements (h : r.Ready names) {isSource : Bool} {p : EndPoint}
    (hp : p.names ⊆ names) {q : Placement} (hq : q ∈ r.endPlacements isSource p) :
    Origin names (r.diagram.nest.locate q).1 (r.diagram.nest.locate q).2 := by
  have hcode := resolve_snd h.sound h.consistent.code isSource p
  cases p with
  | historyOf owner deep =>
    obtain rfl := List.mem_singleton.1 hq
    exact .ofState (EndPoint.historyMark_mem_markWords deep) (hp (List.mem_singleton_self _)) _
  | terminal =>
    rw [locate_of_mem_inOpen hq, hcode]
    exact .mark (@EndPoint.mem_markWords_of_word? .terminal isSource _ rfl) _ h.openScope
  | history deep =>
    rw [locate_of_mem_inOpen hq, hcode]
    exact .mark (EndPoint.historyMark_mem_markWords deep) _ h.openScope
  | bar | state =>
    rw [locate_of_mem_inOpen hq]
    exact .name (hp (List.mem_singleton_self _)) _

lemma origin_located (h : r.Ready names) {line : SourceLine} (hline : r.named line ⊆ names)
    {x : Scope × String} (hx : x ∈ r.located line) : Origin names x.1 x.2 := by
  obtain ⟨q, hq, rfl⟩ := List.mem_map.1 hx
  rw [placements_eq] at hq
  unfold named at hline
  cases hmeaning : r.meaning? line with
  | none =>
    rw [hmeaning] at hq
    cases hq
  | some l =>
    rw [hmeaning, Option.map_some, Option.getD_some] at hq hline
    have hopen : ∀ {c}, c ∈ names → q ∈ r.inOpen c →
        Origin names (r.diagram.nest.locate q).1 (r.diagram.nest.locate q).2 := by
      intro c hc hq
      rw [locate_of_mem_inOpen hq]
      exact .name hc _
    cases l with
    | composite d => exact hopen (hline (List.mem_singleton_self _)) hq
    | declare d description => exact hopen (hline (List.mem_singleton_self _)) hq
    | describe name text => exact hopen (hline (List.mem_singleton_self _)) hq
    | transition source target head =>
      rcases List.mem_append.1 hq with hq | hq
      · exact origin_endPlacements h (List.append_subset.1 hline).1 hq
      · -- the target is placed after the source
        have horigin := origin_endPlacements (h.resolve true source.point)
          (List.append_subset.1 hline).2 hq
        rwa [locate_resolve h.sound] at horigin
    | title | direction | hideEmpty | nothing | blockEnd | separator | note => cases hq

lemma origin_allLocated (h : r.Ready names) {lines : List SourceLine}
    (hlines : r.allNamed lines ⊆ names) {x : Scope × String} (hx : x ∈ r.allLocated lines) :
    Origin names x.1 x.2 := by
  induction lines generalizing r with
  | nil => cases hx
  | cons line rest ih =>
    obtain ⟨hline, hrest⟩ := List.append_subset.1 hlines
    rcases List.mem_append.1 hx with hx | hx
    · exact origin_located h hline hx
    · exact ih (h.step hline) hrest hx

/-- The marks of a line that writes a transition have the codes of their scope. -/
lemma writing?_codes (h : r.Ready names) {line : SourceLine} {w : Writing}
    (hw : r.writing? line = some w) :
    w.transition.source = w.source.codeIn w.scope true ∧
      w.transition.target = w.target.codeIn w.scope false := by
  unfold writing? at hw
  split at hw
  · next source target head hmeaning =>
    rw [← Option.some.inj hw]
    have hsource := h.resolve true source.point
    refine ⟨resolve_snd h.sound h.consistent.code true source.point, ?_⟩
    have htarget := resolve_snd hsource.sound hsource.consistent.code false target.point
    rwa [openScope_resolve h.sound] at htarget
  · cases hw

/-- A mark is placed in the part in which it is written. -/
lemma mem_located_of_mem_marks (h : r.Ready names) {line : SourceLine} {w : Writing}
    (hw : r.writing? line = some w) {m : String × String} (hm : m ∈ w.marks)
    (hclosed : m.2 ∉ r.stack) {k : String} {i : Nat} (hscope : w.scope = .part k i) :
    (.part k i, m.2) ∈ r.located line := by
  have hplaced : ∀ {isSource p word}, EndPoint.word? isSource p = some word → ∀ r : Reader,
      r.endPlacements isSource p = r.inOpen (r.resolve isSource p).2 := by
    intro isSource p word hword r
    cases p with
    | terminal | history => rfl
    | historyOf | bar | state => cases hword
  rw [located, placements_eq]
  unfold writing? at hw
  split at hw
  · next source target head hmeaning =>
    obtain rfl := Option.some.inj hw
    rw [hmeaning, Option.map_some, Option.getD_some, formPlacements, List.map_append]
    rcases List.mem_append.1 hm with hm | hm
    · obtain ⟨word, hword, rfl⟩ := Option.map_eq_some_iff.1 (Option.mem_toList.1 hm)
      obtain ⟨q, hq, hlocate⟩ := mem_inOpen hscope hclosed
      rw [hplaced hword]
      exact List.mem_append_left _ (hlocate ▸ List.mem_map_of_mem hq)
    · obtain ⟨word, hword, rfl⟩ := Option.map_eq_some_iff.1 (Option.mem_toList.1 hm)
      have hstack := (goes_resolve h.sound true source.point).stack
      obtain ⟨q, hq, hlocate⟩ := mem_inOpen ((openScope_resolve h.sound true source.point).trans
        hscope) (hstack.symm ▸ hclosed)
      rw [locate_resolve h.sound] at hlocate
      rw [hplaced hword]
      exact List.mem_append_right _ (hlocate ▸ List.mem_map_of_mem hq)
  · cases hw

/-- Every transition that lines write is written by one of them. -/
lemma exists_ready_of_mem_writings (h : r.Ready names) {lines : List SourceLine}
    (hlines : r.allNamed lines ⊆ names) {w : Writing} (hw : w ∈ r.writings lines) :
    ∃ (r' : Reader) (line : SourceLine), r'.Ready names ∧ r'.writing? line = some w ∧
      r'.located line ⊆ r.allLocated lines := by
  induction lines generalizing r with
  | nil => cases hw
  | cons line rest ih =>
    obtain ⟨hline, hrest⟩ := List.append_subset.1 hlines
    rcases List.mem_append.1 hw with hw | hw
    · exact ⟨r, line, h, Option.mem_toList.1 hw, List.subset_append_left _ _⟩
    · obtain ⟨r', line', hready, hwriting, hsub⟩ := ih (h.step hline) hrest hw
      exact ⟨r', line', hready, hwriting, List.Subset.trans hsub (List.subset_append_right _ _)⟩

end Reader

/-! ### Texts -/

/-- A name that no mark has and no later region. -/
def IsPlainName (c : String) : Prop :=
  ¬ Reader.markStart <+: c.toList ∧ ∀ holder n, c ≠ Scope.regionName holder n

/-- Scopes of states with plain names do not clash. -/
lemma Scope.not_clash {names : List String} (hplain : ∀ c ∈ names, IsPlainName c) {s s' : Scope}
    (hs' : ∀ k, s'.holder? = some k → k ∈ names) : ¬ s.Clash s' := by
  intro h
  cases h with
  | top => exact (hplain _ (hs' _ rfl)).1 (by decide)
  | region holder n => exact (hplain _ (hs' _ rfl)).2 holder (n + 1) rfl

lemma Scope.eq_of_name_eq {names : List String} (hplain : ∀ c ∈ names, IsPlainName c)
    {s s' : Scope} (hs : ∀ k, s.holder? = some k → k ∈ names)
    (hs' : ∀ k, s'.holder? = some k → k ∈ names) (h : s.name = s'.name) : s = s' := by
  rcases Scope.name_eq_iff.1 h with h | h | h
  · exact h
  · exact absurd h (Scope.not_clash hplain hs')
  · exact absurd h (Scope.not_clash hplain hs)

/-- A mark with the code of a scope is placed in the composite state of this scope only. -/
lemma Origin.holder?_eq {names : List String} (hplain : ∀ c ∈ names, IsPlainName c) {s s' : Scope}
    {word c : String} (hword : word ∈ Reader.markWords)
    (hs : ∀ k, s.holder? = some k → k ∈ names) (hc : c = Reader.markCode word s.name)
    (h : Origin names s' c) : s'.holder? = s.holder? := by
  cases h with
  | name hmem =>
    rw [hc] at hmem
    exact absurd (Reader.markStart_prefix_markCode _ _) (hplain _ hmem).1
  | mark hword' s' hs' =>
    have hname := ((Reader.markCode_inj hword' hword).1 hc).2
    rw [Scope.eq_of_name_eq hplain hs' hs hname]
  | @ofState word' owner hword' howner i =>
    have hname := ((Reader.markCode_inj hword' hword).1 hc).2
    -- the state is not called like the top level or a later region
    have howner' : (Scope.part owner 0).name = s.name := hname
    have hholder : ∀ k, (Scope.part owner 0).holder? = some k → k ∈ names := by
      intro k hk
      rwa [← Option.some.inj hk]
    rw [← Scope.eq_of_name_eq hplain hholder hs howner']
    rfl

namespace Diagram

/-- The codes of the states that a text names, in order. -/
def named (text : String) : List String :=
  Reader.allNamed {} (Source.lines text)

lemma ready_start (names : List String) : Reader.Ready {} names where
  sound := Reader.sound_start
  consistent := consistent_empty
  stack := List.nil_subset _

/-- In the diagram of a text the ends of a transition have the codes of what is written there.  Two
marks with the same word have the same code if and only if they are written in the same scope or in
scopes with clashing names.  If all names are plain, marks have other codes than states with names,
marks of different scopes have different codes, and each mark stands in the composite state in which
it is written, among the members of its part. -/
theorem marks_read (text : String) :
    (∀ w ∈ writings text, w.transition.source = w.source.codeIn w.scope true ∧
      w.transition.target = w.target.codeIn w.scope false) ∧
    (∀ w ∈ writings text, ∀ w' ∈ writings text, ∀ m ∈ w.marks, ∀ m' ∈ w'.marks, m.1 = m'.1 →
      (m.2 = m'.2 ↔
        w.scope = w'.scope ∨ w.scope.Clash w'.scope ∨ w'.scope.Clash w.scope)) ∧
    ((∀ c ∈ named text, IsPlainName c) → ∀ w ∈ writings text, ∀ m ∈ w.marks,
      m.2 ∉ named text ∧
      (∀ w' ∈ writings text, ∀ m' ∈ w'.marks, m.1 = m'.1 → w.scope ≠ w'.scope → m.2 ≠ m'.2) ∧
      (read text).parent? m.2 = w.scope.holder? ∧
      ∀ k i, w.scope = .part k i → m.2 ∈ ((read text).contentsOf k).membersIn i) := by
  have hstart := ready_start (named text)
  have hcodes : ∀ w ∈ writings text, w.transition.source = w.source.codeIn w.scope true ∧
      w.transition.target = w.target.codeIn w.scope false := by
    intro w hw
    obtain ⟨r, line, hready, hwriting, -⟩ :=
      Reader.exists_ready_of_mem_writings hstart (List.Subset.refl _) hw
    exact Reader.writing?_codes hready hwriting
  have hmarks : ∀ w ∈ writings text, ∀ m ∈ w.marks,
      m.2 = Reader.markCode m.1 w.scope.name ∧ m.1 ∈ Reader.markWords := by
    intro w hw m hm
    rcases List.mem_append.1 hm with hm | hm
    · obtain ⟨word, hword, rfl⟩ := Option.map_eq_some_iff.1 (Option.mem_toList.1 hm)
      exact ⟨(hcodes w hw).1.trans (EndPoint.codeIn_of_word? hword _),
        EndPoint.mem_markWords_of_word? hword⟩
    · obtain ⟨word, hword, rfl⟩ := Option.map_eq_some_iff.1 (Option.mem_toList.1 hm)
      exact ⟨(hcodes w hw).2.trans (EndPoint.codeIn_of_word? hword _),
        EndPoint.mem_markWords_of_word? hword⟩
  have hsame : ∀ w ∈ writings text, ∀ w' ∈ writings text, ∀ m ∈ w.marks, ∀ m' ∈ w'.marks,
      m.1 = m'.1 → (m.2 = m'.2 ↔
        w.scope = w'.scope ∨ w.scope.Clash w'.scope ∨ w'.scope.Clash w.scope) := by
    intro w hw w' hw' m hm m' hm' hword
    obtain ⟨hcode, hmem⟩ := hmarks w hw m hm
    obtain ⟨hcode', hmem'⟩ := hmarks w' hw' m' hm'
    rw [hcode, hcode', Reader.markCode_inj hmem hmem', Scope.name_eq_iff]
    exact and_iff_right hword
  refine ⟨hcodes, hsame, fun hplain w hw m hm => ?_⟩
  obtain ⟨hcode, hword⟩ := hmarks w hw m hm
  obtain ⟨r, line, hready, hwriting, hlocated⟩ :=
    Reader.exists_ready_of_mem_writings hstart (List.Subset.refl _) hw
  have hscopes : ∀ w ∈ writings text, ∀ k, w.scope.holder? = some k → k ∈ named text := by
    intro w hw
    obtain ⟨r, line, hready, hwriting, -⟩ :=
      Reader.exists_ready_of_mem_writings hstart (List.Subset.refl _) hw
    rw [(Reader.changes_of_writing?_eq_some hwriting).1]
    exact hready.openScope
  have hnew : m.2 ∉ named text := by
    intro hmem
    rw [hcode] at hmem
    exact (hplain _ hmem).1 (Reader.markStart_prefix_markCode _ _)
  have hholds := holds_read text
  have hholder : ∀ s, (s, m.2) ∈ located text → s.holder? = w.scope.holder? := by
    intro s hs
    have horigin := Reader.origin_allLocated hstart (List.Subset.refl _) hs
    exact horigin.holder?_eq hplain hword (hscopes w hw) hcode
  have hplaced : ∀ k i, w.scope = .part k i → (.part k i, m.2) ∈ located text := by
    intro k i hscope
    exact hlocated (Reader.mem_located_of_mem_marks hready hwriting hm
      (fun hmem => hnew (hready.stack hmem)) hscope)
  have hparent : (read text).parent? m.2 = w.scope.holder? := by
    cases hp : (read text).parent? m.2 with
    | none =>
      cases hscope : w.scope with
      | top => rfl
      | part k i => exact absurd hp (hholds.held _ _ (hplaced k i hscope))
    | some p =>
      obtain ⟨i, hi⟩ := hholds.source _ _ hp
      exact hholder _ hi
  refine ⟨hnew, fun w' hw' m' hm' hword' hne heq => ?_, hparent, fun k i hscope => ?_⟩
  · rcases (hsame w hw w' hw' m hm m' hm' hword').1 heq with h | h | h
    · exact hne h
    · exact Scope.not_clash hplain (hscopes w' hw') h
    · exact Scope.not_clash hplain (hscopes w hw) h
  · refine (hholds.mem_iff k i m.2).2 ⟨?_, hplaced k i hscope⟩
    rw [hscope] at hparent
    exact hparent

/-- Two regions with plain names in them; each has an initial element of its own. -/
theorem marks_read_regions :
    "__initial_A_r1__" ∉ named "state A \x7b\n[*] --> B\n--\n[*] --> C\n\x7d" ∧
    (read "state A \x7b\n[*] --> B\n--\n[*] --> C\n\x7d").parent? "__initial_A_r1__" = some "A" ∧
    "__initial_A_r1__" ∈
      ((read "state A \x7b\n[*] --> B\n--\n[*] --> C\n\x7d").contentsOf "A").membersIn 1 := by
  have hnamed : named "state A \x7b\n[*] --> B\n--\n[*] --> C\n\x7d" = ["A", "B", "C"] := rfl
  have hplain : ∀ c ∈ named "state A \x7b\n[*] --> B\n--\n[*] --> C\n\x7d", IsPlainName c := by
    intro c hc
    rw [hnamed] at hc
    simp only [List.mem_cons, List.not_mem_nil, or_false] at hc
    rcases hc with rfl | rfl | rfl <;> exact ⟨by decide, Scope.ne_regionName rfl⟩
  have hwritings : writings "state A \x7b\n[*] --> B\n--\n[*] --> C\n\x7d" =
      [⟨.part "A" 0, .terminal, .state "B",
          ⟨"__initial_A__", "B", none, none, {}, false, false, 2⟩⟩,
        ⟨.part "A" 1, .terminal, .state "C",
          ⟨"__initial_A_r1__", "C", none, none, {}, false, false, 2⟩⟩] := rfl
  obtain ⟨hnew, -, hparent, hmember⟩ := (marks_read _).2.2 hplain
    ⟨.part "A" 1, .terminal, .state "C",
      ⟨"__initial_A_r1__", "C", none, none, {}, false, false, 2⟩⟩
    (by simp [hwritings]) ("initial", "__initial_A_r1__") (List.mem_singleton_self _)
  exact ⟨hnew, hparent, hmember "A" 1 rfl⟩

/-- A composite state that is called like a later region of another one shares its initial element;
the element stands in the region, and the state has none.  A state that is called like a mark is
this mark. -/
theorem same_mark_region :
    (writings "state A \x7b\n[*] --> B\n--\n[*] --> C\n\x7d\nstate A_r1 \x7b\n[*] --> D\n\x7d").map
        (fun w => (w.scope, w.source, w.transition.source)) =
      [(.part "A" 0, .terminal, "__initial_A__"), (.part "A" 1, .terminal, "__initial_A_r1__"),
        (.part "A_r1" 0, .terminal, "__initial_A_r1__")] ∧
    ((read "state A \x7b\n[*] --> B\n--\n[*] --> C\n\x7d\nstate A_r1 \x7b\n[*] --> D\n\x7d"
      ).contentsOf "A_r1").members = ["D"] ∧
    (writings "[*] --> A\n__initial___top____ --> B").map
        (fun w => (w.scope, w.source, w.transition.source)) =
      [(.top, .terminal, "__initial___top____"),
        (.top, .state "__initial___top____", "__initial___top____")] :=
  ⟨rfl, rfl, rfl⟩

end Diagram
end State
end UmlDraw
