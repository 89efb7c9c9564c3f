/-
# Regions and transitions of a state diagram

What a composite state holds is written in two places, and so is every transition.

The main statements are

* `State.Diagram.nesting_read`: members, parents and regions are in step;
* `Reader.Records.step` and `Diagram.transitions_read`: the transitions of a line and of a text.
-/
import UmlDraw.Proofs.State.Growth
import UmlDraw.Proofs.State.Reader
import UmlDraw.Proofs.State.Scope
import UmlDraw.Proofs.Text.Reading

namespace UmlDraw

/-! ## Members, parents and regions

What a composite state holds is written in two places, and every line keeps them in step.  The first
line that separates regions turns what was held directly into the first region, which no later line
changes. -/

namespace State

namespace Contents

/-- The codes of the elements that are in no region. -/
def children : Contents → List String
  | direct members _ => members
  | concurrent _ _ _ => []

/-- The transitions that are in no region. -/
def childTransitions : Contents → List Transition
  | direct _ transitions => transitions
  | concurrent _ _ _ => []

lemma two_le_length_regions {cs : Contents} (h : cs.regions ≠ []) : 2 ≤ cs.regions.length := by
  cases cs with
  | direct ms ts => exact absurd rfl h
  | concurrent first middle last => simp [regions]

end Contents

namespace Separator

/-- The character of a line that separates regions. -/
def char : Separator → Char
  | dashes => '-'
  | bars => '|'

/-- A line that separates regions: the character twice or more often. -/
def Written (s : Separator) (text : List Char) : Prop :=
  ∃ n, text = List.replicate (n + 2) s.char

lemma run_twoOrMore (c : Char) (n : Nat) (l : Line) :
    (do Line.twoOrMore c; pure l : Scan Line).whole (List.replicate (n + 2) c) = some l := by
  have hskip := Scan.run_skip_replicate c n
    (fun _ rest => if rest.isEmpty then some l else none) (fun _ _ _ => rfl)
  have hc : (c == c) = true := beq_self_eq_true c
  simp only [Scan.whole, Line.twoOrMore, Scan.skip1, List.replicate_succ, Scan.run_bind,
    Scan.run_char_cons, Scan.satisfy, hc, if_true]
  exact hskip

lemma whole_readSeparator (s : Separator) (n : Nat) :
    Line.readSeparator.whole (List.replicate (n + 2) s.char) = some (.separator s) := by
  rw [Scan.whole, Line.readSeparator, Scan.run_either]
  cases s with
  | dashes =>
    have hdashes := run_twoOrMore '-' n (.separator .dashes)
    rw [Scan.whole] at hdashes
    rw [char, hdashes, Option.some_or]
  | bars =>
    have hbars := run_twoOrMore '|' n (.separator .bars)
    rw [Scan.whole] at hbars
    rw [char, hbars]
    rfl

/-- Inside of a composite state, such a line is read as one. -/
lemma read?_of_written {s : Separator} {text : List Char} (h : s.Written text) :
    Line.read? true text = some (.separator s) := by
  obtain ⟨n, rfl⟩ := h
  -- the forms before the separators start with another character
  have hbefore : (Scan.anyOf ((Line.forms true).take 7)).whole (List.replicate (n + 2) s.char) =
      none := by
    cases s <;> rfl
  have hread : (Scan.anyOf (Line.forms true)).whole (List.replicate (n + 2) s.char) =
      some (.separator s) :=
    Scan.whole_anyOf 7 rfl hbefore (whole_readSeparator s n)
  rw [Line.read?, hread, Option.some_or]

end Separator

namespace Reader

variable {r : Reader} {p : String} {outer : List String} {e : Element} {line : SourceLine}

/-- A line that separates regions in the innermost open composite state. -/
lemma step_separator {s : Separator} (hnote : r.note = none) (hstack : r.stack = p :: outer)
    (hline : s.Written line.text) :
    r.step line = r.change p fun e => { e with contents := e.contents.divide s } := by
  have htext : line.text.isEmpty = false := by
    obtain ⟨n, hn⟩ := hline
    rw [hn]
    rfl
  have hread : Line.read? (!r.stack.isEmpty) line.text = some (.separator s) := by
    rw [hstack]
    exact Separator.read?_of_written hline
  calc r.step line = r.apply (.separator s) := by
        rw [step, hnote]
        simp only [htext, hread, Bool.false_eq_true, if_false]
    _ = _ := by
        rw [apply, divide, hstack]

/-- The first such line turns what the composite state holds directly into its first region. -/
lemma get?_step_separator {s : Separator} (hnote : r.note = none) (hstack : r.stack = p :: outer)
    (hp : r.diagram.elements.get? p = some e) (hregions : e.contents.regions = [])
    (hline : s.Written line.text) :
    (r.step line).diagram.elements.get? p = some { e with
      contents := .concurrent ⟨s, e.contents.children, e.contents.childTransitions⟩ [] ⟨s, [], []⟩
      } := by
  rw [step_separator hnote hstack hline]
  simp only [change, Diagram.change, Keyed.get?_modify, hp, if_true, Option.map_some]
  cases hcontents : e.contents with
  | direct ms ts => rfl
  | concurrent first middle last =>
    rw [hcontents] at hregions
    exact absurd hregions (by simp [Contents.regions])

end Reader

namespace Diagram

/-- In the diagram of a text every element stands under its own code; a composite state with regions
has at least two of them and holds nothing else; it holds exactly the elements that have it as their
parent, and it is not its own parent.  The first line that separates regions inside of an open
composite state makes what the state held, in its order, the first region, and this is the first
region of the state in the diagram of the text. -/
theorem nesting_read (text : String) :
    (∀ k e, (read text).elements.get? k = some e →
      e.code = k ∧
      (e.contents.regions ≠ [] → 2 ≤ e.contents.regions.length ∧
        e.contents.children = [] ∧ e.contents.childTransitions = []) ∧
      (∀ c, c ∈ e.contents.members ↔
        ∃ e', (read text).elements.get? c = some e' ∧ e'.parent = some e.code) ∧
      e.parent ≠ some e.code) ∧
    (∀ before line after r s p outer e, Source.lines text = before ++ line :: after →
      r = before.foldl Reader.step {} → r.note = none → r.stack = p :: outer →
      r.diagram.elements.get? p = some e → e.contents.regions = [] →
      Separator.Written s line.text →
      (r.step line).diagram.elements.get? p = some { e with
        contents := .concurrent ⟨s, e.contents.children, e.contents.childTransitions⟩ []
          ⟨s, [], []⟩ } ∧
      ∃ e', (read text).elements.get? p = some e' ∧
        e'.contents.regions.head? =
          some ⟨s, e.contents.children, e.contents.childTransitions⟩) := by
  have hconsistent := consistent_read text
  refine ⟨?_, ?_⟩
  · intro k e he
    obtain rfl := hconsistent.code k e he
    refine ⟨rfl, ?_, ?_, ?_⟩
    · intro hregions
      refine ⟨Contents.two_le_length_regions hregions, ?_⟩
      cases hcontents : e.contents with
      | direct ms ts => exact absurd (by rw [hcontents]; rfl) hregions
      | concurrent first middle last => exact ⟨rfl, rfl⟩
    · intro c
      rw [← membersOf_of_get? he, hconsistent.mem_iff, parent?, Option.bind_eq_some_iff]
    · rw [← parent?_of_get? he]
      exact hconsistent.ne_self e.code
  · intro before line after r s p outer e hlines hr hnote hstack hp hregions hline
    have hget := Reader.get?_step_separator hnote hstack hp hregions hline
    refine ⟨hget, ?_⟩
    -- the lines behind the separator keep the first region
    have hsound : r.Sound := by
      rw [hr]
      exact (Reader.builds_foldl Reader.sound_start before).2
    have hafter := (Reader.builds_foldl (Reader.builds_step hsound line).2 after).1
    have hread : (after.foldl Reader.step (r.step line)).diagram = read text := by
      rw [read, hlines, List.foldl_append, List.foldl_cons, ← hr]
    rw [hread] at hafter
    have hfirst := hafter.first (c := p)
      (R := ⟨s, e.contents.children, e.contents.childTransitions⟩) (by rw [firstRegion?, hget]; rfl)
    obtain ⟨e', he', hR⟩ := Option.bind_eq_some_iff.1 hfirst
    rw [Contents.first?_eq_head?] at hR
    exact ⟨e', he', hR⟩

/-- Two states with a transition between them become the first region, and a third one stands behind
the line. -/
theorem nesting_read_dashes :
    ∃ e, (read "state A \x7b\nB -> C\n--\nD : d\n\x7d").elements.get? "A" = some e ∧
      e.code = "A" ∧ 2 ≤ e.contents.regions.length ∧ e.contents.children = [] ∧
      "D" ∈ e.contents.members ∧ e.parent ≠ some "A" ∧
      e.contents.regions.head? = some ⟨.dashes, ["B", "C"],
        [⟨"B", "C", none, none, {}, false, false, 1⟩]⟩ := by
  obtain ⟨hnesting, hdivided⟩ := nesting_read "state A \x7b\nB -> C\n--\nD : d\n\x7d"
  obtain ⟨-, e, he, hfirst⟩ := hdivided
    [⟨"state A \x7b".toList, "state A \x7b".toList⟩, ⟨"B -> C".toList, "B -> C".toList⟩]
    ⟨"--".toList, "--".toList⟩
    [⟨"D : d".toList, "D : d".toList⟩, ⟨"\x7d".toList, "\x7d".toList⟩]
    _ .dashes "A" []
    { code := "A", display := "A",
      contents := .direct ["B", "C"] [⟨"B", "C", none, none, {}, false, false, 1⟩] }
    rfl rfl rfl rfl rfl rfl ⟨0, rfl⟩
  obtain ⟨hcode, hregions, hmembers, hparent⟩ := hnesting "A" e he
  rw [hcode] at hparent hmembers
  have hne : e.contents.regions ≠ [] := by
    intro h
    rw [h] at hfirst
    exact nomatch hfirst
  have hd : "D" ∈ e.contents.members :=
    (hmembers "D").2 ⟨{ code := "D", display := "D", descriptions := ["d"], parent := "A" },
      rfl, rfl⟩
  exact ⟨e, he, hcode, (hregions hne).1, (hregions hne).2.1, hd, hparent, hfirst⟩

end Diagram

/-! ## The lists of transitions

Every transition is kept in the list of all transitions, and once more in the part of the composite
state in which it is written.  A text writes its transitions one after the other, each of them in a
scope; the list of a part has the transitions that are written in this part and no others, in the
same order. -/


/-- The transitions that are written in a scope. -/
def Writing.inScope (ws : List Writing) (s : Scope) : List Transition :=
  (ws.filter fun w => w.scope = s).map transition

lemma Writing.inScope_append (ws ws' : List Writing) (s : Scope) :
    inScope (ws ++ ws') s = inScope ws s ++ inScope ws' s := by
  simp [inScope]

namespace Reader

variable {r : Reader}

/-- The diagram holds the given writings, each of them in the list of all transitions and in the
list of its scope. -/
structure Records (r : Reader) (ws : List Writing) : Prop where
  all : r.diagram.transitions = ws.map Writing.transition
  part : ∀ p i, (r.diagram.contentsOf p).transitionsIn i = Writing.inScope ws (.part p i)
  known : ∀ w ∈ ws, ∀ p i, w.scope = .part p i →
    p ∈ r.diagram.elements.keys ∧ i ≤ r.diagram.nest.openIndex p

/-- A line adds what it writes to the list of all transitions and to the one of its scope; all other
lists stay the same. -/
lemma nest_step_transitions (hr : r.Sound) (line : SourceLine) :
    (r.step line).diagram.transitions =
        r.diagram.transitions ++ (r.writing? line).toList.map Writing.transition ∧
      (∀ p i, ((r.step line).diagram.contentsOf p).transitionsIn i =
        (r.diagram.contentsOf p).transitionsIn i ++
          Writing.inScope (r.writing? line).toList (.part p i)) ∧
      ∀ p, r.diagram.nest.openIndex p ≤ (r.step line).diagram.nest.openIndex p := by
  -- read from the nests before and behind the line
  suffices h : (r.step line).diagram.nest.transitions =
        r.diagram.nest.transitions ++ (r.writing? line).toList.map Writing.transition ∧
      (∀ p i, ((r.step line).diagram.nest.contents p).transitionsIn i =
        (r.diagram.nest.contents p).transitionsIn i ++
          Writing.inScope (r.writing? line).toList (.part p i)) ∧
      ∀ p, r.diagram.nest.openIndex p ≤ (r.step line).diagram.nest.openIndex p from h
  rw [nest_step hr]
  cases hw : r.writing? line with
  | none =>
    simp only [Option.toList_none, List.map_nil, List.append_nil, Writing.inScope, List.filter_nil]
    rcases changes_of_writing?_eq_none hw with h | ⟨p, s, h⟩ <;> rw [h]
    · exact ⟨Nest.transitions_places _ _, Nest.transitionsIn_places _ _,
        fun p => Nat.le_of_eq (Nest.openIndex_places _ _ p).symm⟩
    · rw [Nest.run_append]
      refine ⟨Nest.transitions_places _ _, fun k i => ?_, fun k => ?_⟩
      · exact (Nest.transitionsIn_divide _ p s k i).trans (Nest.transitionsIn_places _ _ k i)
      · rw [← Nest.openIndex_places r.diagram.nest (r.placements line) k]
        exact Nest.openIndex_le_divide _ p s k
  | some w =>
    obtain ⟨hscope, h⟩ := changes_of_writing?_eq_some hw
    rw [h, Nest.run_append]
    refine ⟨?_, fun k i => ?_, fun k => ?_⟩
    · exact (Nest.transitions_connect _ _ _).trans
        (congrArg (· ++ [w.transition]) (Nest.transitions_places _ _))
    · refine (Nest.transitionsIn_connect _ _ _ k i).trans ?_
      rw [Nest.transitionsIn_places, Nest.openIndex_places]
      simp only [Option.toList_some, Writing.inScope, List.filter_singleton, hscope,
        openScope_eq_part_iff]
      split <;> simp [*]
    · exact Nat.le_of_eq ((Nest.openIndex_connect _ _ _ k).trans (Nest.openIndex_places _ _ k)).symm

lemma known_openScope (hr : r.Sound) {p : String} {i : Nat} (h : r.openScope = .part p i) :
    p ∈ r.diagram.elements.keys ∧ i ≤ r.diagram.nest.openIndex p := by
  obtain ⟨hp, rfl⟩ := openScope_eq_part_iff.1 h
  exact ⟨hr.stack p (List.mem_of_mem_head? hp), Nat.le_refl _⟩

/-- What a line writes is recorded, and what was recorded stays so. -/
theorem Records.step {ws : List Writing} (h : r.Records ws) (hr : r.Sound) (line : SourceLine) :
    (r.step line).Records (ws ++ (r.writing? line).toList) := by
  obtain ⟨hall, hpart, hindex⟩ := nest_step_transitions hr line
  refine ⟨?_, fun p i => ?_, fun w hw p i hscope => ?_⟩
  · rw [hall, h.all, List.map_append]
  · rw [hpart, h.part, Writing.inScope_append]
  · have hknown : p ∈ r.diagram.elements.keys ∧ i ≤ r.diagram.nest.openIndex p := by
      rcases List.mem_append.1 hw with hw | hw
      · exact h.known w hw p i hscope
      · have hw := Option.mem_toList.1 hw
        rw [(changes_of_writing?_eq_some hw).1] at hscope
        exact known_openScope hr hscope
    exact ⟨(grows_step r line).keys.subset hknown.1, Nat.le_trans hknown.2 (hindex p)⟩

/-- What lines write is recorded. -/
theorem Records.foldl {ws : List Writing} (h : r.Records ws) (hr : r.Sound)
    (lines : List SourceLine) : (lines.foldl Reader.step r).Records (ws ++ r.writings lines) := by
  induction lines generalizing r ws with
  | nil => rwa [writings, List.append_nil]
  | cons line rest ih =>
    have hrest := ih (h.step hr line) (builds_step hr line).2
    rwa [List.append_assoc] at hrest

end Reader

/-! ### The transitions of all scopes together -/

/-- The transitions of a composite state, part by part. -/
def Contents.heldTransitions (cs : Contents) : List Transition :=
  cs.childTransitions ++ cs.regions.flatMap Region.transitions

namespace Contents

variable (cs : Contents)

lemma map_part_regions {cs : Contents} (h : cs.regions ≠ []) :
    cs.regions.map Region.part = cs.parts := by
  cases cs with
  | direct ms ts => exact absurd rfl h
  | concurrent first middle last => simp [regions, parts, closed, opened]

lemma heldTransitions_eq :
    cs.heldTransitions = (List.range cs.parts.length).flatMap cs.transitionsIn := by
  have hparts : cs.heldTransitions = cs.parts.flatMap Part.transitions := by
    cases cs with
    | direct ms ts => simp [heldTransitions, childTransitions, regions, parts, closed, opened]
    | concurrent first middle last =>
      simp [heldTransitions, childTransitions, regions, parts, closed, opened, Region.part,
        List.flatMap_map]
  rw [hparts, transitionsIn, flatMap_inPart]

end Contents

namespace Writing

lemma length_filter_or {p q : Writing → Bool} (h : ∀ w, p w = true → q w = false)
    (ws : List Writing) :
    (ws.filter fun w => p w || q w).length = (ws.filter p).length + (ws.filter q).length := by
  induction ws with
  | nil => rfl
  | cons w ws ih =>
    by_cases hp : p w = true
    · simp [hp, h w hp, ih]
      omega
    · by_cases hq : q w = true <;> simp [hp, hq, ih]
      omega

/-- Different scopes share no writing. -/
lemma length_flatMap_inScope {scopes : List Scope} (h : scopes.Nodup) (ws : List Writing) :
    (scopes.flatMap (inScope ws)).length = (ws.filter fun w => w.scope ∈ scopes).length := by
  induction scopes with
  | nil => simp
  | cons s rest ih =>
    obtain ⟨hs, hrest⟩ := List.nodup_cons.1 h
    have hor := length_filter_or (p := fun w => decide (w.scope = s))
      (q := fun w => decide (w.scope ∈ rest)) (fun w hw => by simpa [of_decide_eq_true hw] using hs)
      ws
    simp only [List.mem_cons, Bool.decide_or]
    rw [List.flatMap_cons, List.length_append, ih hrest, inScope, List.length_map, hor]

end Writing

namespace Diagram

/-- The transitions that are kept in composite states. -/
def heldTransitions (d : Diagram) : List Transition :=
  d.elements.values.flatMap fun e => e.contents.heldTransitions

/-- The parts of all elements. -/
def scopes (d : Diagram) : List Scope :=
  d.elements.keys.flatMap fun k => (List.range (d.contentsOf k).parts.length).map (Scope.part k)

lemma nodup_scopes (d : Diagram) : d.scopes.Nodup := by
  refine List.nodup_flatMap.2 ⟨fun k _ => ?_, ?_⟩
  · exact List.Nodup.map (fun i j h => (Scope.part.inj h).2) List.nodup_range
  · refine List.Pairwise.imp ?_ d.elements.nodup
    intro k k' hne s hs hs'
    obtain ⟨i, -, rfl⟩ := List.mem_map.1 hs
    obtain ⟨j, -, hj⟩ := List.mem_map.1 hs'
    exact hne (Scope.part.inj hj).1.symm

lemma mem_scopes {d : Diagram} {p : String} {i : Nat} :
    .part p i ∈ d.scopes ↔ p ∈ d.elements.keys ∧ i ≤ d.nest.openIndex p := by
  simp only [scopes, List.mem_flatMap, List.mem_map, List.mem_range, Scope.part.injEq,
    Contents.length_parts, Nat.lt_succ_iff]
  constructor
  · rintro ⟨k, hk, j, hj, rfl, rfl⟩
    exact ⟨hk, hj⟩
  · rintro ⟨hp, hi⟩
    exact ⟨p, hp, i, hi, rfl, rfl⟩

lemma heldTransitions_eq {d : Diagram} {ws : List Writing}
    (h : ∀ p i, (d.contentsOf p).transitionsIn i = Writing.inScope ws (.part p i)) :
    d.heldTransitions = d.scopes.flatMap (Writing.inScope ws) := by
  have hvalues : d.elements.values.map Element.contents = d.elements.keys.map d.contentsOf := by
    rw [Keyed.values, Keyed.keys, List.map_map, List.map_map]
    refine List.map_congr_left fun entry hentry => ?_
    exact (contentsOf_of_get? (Keyed.get?_eq_some_iff.2 hentry)).symm
  calc d.heldTransitions
      = (d.elements.keys.map d.contentsOf).flatMap Contents.heldTransitions := by
        rw [heldTransitions, ← hvalues, List.flatMap_map]
    _ = d.scopes.flatMap (Writing.inScope ws) := by
        rw [scopes, List.flatMap_map, List.flatMap_assoc]
        refine List.flatMap_congr fun k _ => ?_
        rw [Contents.heldTransitions_eq, List.flatMap_map]
        exact List.flatMap_congr fun i _ => h k i

lemma records_read (text : String) :
    ((Source.lines text).foldl Reader.step {}).Records (writings text) := by
  have hstart : Reader.Records {} [] := ⟨rfl, fun _ i => Contents.inPart_empty rfl i, by simp⟩
  exact hstart.foldl Reader.sound_start _

/-- Every transition that is written is kept in one part, or is written outside of all composite
states. -/
lemma length_heldTransitions (text : String) :
    (read text).heldTransitions.length +
        ((writings text).filter fun w => w.scope = .top).length =
      (read text).transitions.length := by
  have hrecords := records_read text
  have hall : (read text).transitions = (writings text).map Writing.transition := hrecords.all
  have hpart : ∀ p i, ((read text).contentsOf p).transitionsIn i =
    Writing.inScope (writings text) (.part p i) := hrecords.part
  have htop : (writings text).filter (fun w => w.scope = .top) =
      (writings text).filter fun w => !decide (w.scope ∈ (read text).scopes) := by
    refine List.filter_congr fun w hw => ?_
    cases hscope : w.scope with
    | top => simp [scopes]
    | part p i =>
      have hmem : .part p i ∈ (read text).scopes := mem_scopes.2 (hrecords.known w hw p i hscope)
      simpa using hmem
  rw [heldTransitions_eq hpart, Writing.length_flatMap_inScope (nodup_scopes _), htop, hall,
    List.length_map, ← List.length_eq_length_filter_add]

/-- In the diagram of a text the ends of every transition are elements.  The transitions are those
that the text writes, in order; each part of a composite state has those that are written in it, in
the same order, so the transitions without a region and those of a region are a part of all
transitions.  The transitions of all composite states and those that are written outside of them are
as many as there are transitions.  A note on a transition speaks of one that is there. -/
theorem transitions_read (text : String) :
    (∀ t ∈ (read text).transitions,
      t.source ∈ (read text).elements.keys ∧ t.target ∈ (read text).elements.keys) ∧
    (read text).transitions = (writings text).map Writing.transition ∧
    (∀ k e, (read text).elements.get? k = some e →
      (∀ i, e.contents.transitionsIn i = Writing.inScope (writings text) (.part k i)) ∧
      e.contents.childTransitions.Sublist (read text).transitions ∧
      ∀ R ∈ e.contents.regions, R.transitions.Sublist (read text).transitions) ∧
    (read text).heldTransitions.length +
        ((writings text).filter fun w => w.scope = .top).length =
      (read text).transitions.length ∧
    ∀ n ∈ (read text).notes, ∀ i, n.target = .link (some i) →
      i < (read text).transitions.length := by
  have hrecords := records_read text
  have hall : (read text).transitions = (writings text).map Writing.transition := hrecords.all
  have hin : ∀ s, (Writing.inScope (writings text) s).Sublist (read text).transitions := by
    intro s
    rw [hall]
    exact List.filter_sublist.map _
  refine ⟨fun t ht => mem_keys_of_mem_transitions ht, hall, fun k e he => ?_,
    length_heldTransitions text, notes_read text⟩
  have hpart : ∀ i, e.contents.transitionsIn i = Writing.inScope (writings text) (.part k i) := by
    intro i
    rw [← contentsOf_of_get? he]
    exact hrecords.part k i
  refine ⟨hpart, ?_, fun R hR => ?_⟩
  · cases hcontents : e.contents with
    | direct ms ts =>
      have h := hpart 0
      rw [hcontents] at h
      exact (show ts = _ from h) ▸ hin _
    | concurrent first middle last => exact List.nil_sublist _
  · -- a region is a part
    have hparts := Contents.map_part_regions (List.ne_nil_of_mem hR)
    obtain ⟨i, hi, rfl⟩ := List.getElem_of_mem hR
    have h := hpart i
    rw [Contents.transitionsIn, Contents.inPart, ← hparts, List.getElem?_map, List.getElem?_eq_getElem hi] at h
    exact (show e.contents.regions[i].transitions = _ from h) ▸ hin _

/-- A state with two regions is closed twice and opened again. -/
theorem transitions_read_again :
    ∃ e, (read "state A \x7b\nB -> C\n--\nB -> D\n\x7d\n\x7d\nstate A \x7b\nD -> B\n\x7d\nA -> E"
        ).elements.get? "A" = some e ∧
      e.contents.transitionsIn 1 =
        [⟨"B", "D", none, none, {}, false, false, 1⟩, ⟨"D", "B", none, none, {}, false, false, 1⟩] ∧
      (∀ R ∈ e.contents.regions, R.transitions.Sublist
        (read "state A \x7b\nB -> C\n--\nB -> D\n\x7d\n\x7d\nstate A \x7b\nD -> B\n\x7d\nA -> E"
          ).transitions) := by
  obtain ⟨-, -, hparts, -⟩ := transitions_read
    "state A \x7b\nB -> C\n--\nB -> D\n\x7d\n\x7d\nstate A \x7b\nD -> B\n\x7d\nA -> E"
  have hA := hparts "A" _ rfl
  exact ⟨_, rfl, hA.1 1, hA.2.2⟩

end Diagram

end State
end UmlDraw
