/-
# What the links of a use case or component diagram name

A line that declares an element does not say where it stands, and a line with a link may name what
is not declared; the reader knows about both.

The main statements are

* `Line.placesNothing_of_read?`: declarations place nothing;
* `Reader.Sound.step`: what every line keeps;
* `Diagram.resolved_read`: what holds of a diagram that was read.
-/
import UmlDraw.Description.Line
import UmlDraw.Description.Reader
import UmlDraw.Proofs.Drawing.Cluster
import UmlDraw.Proofs.Layout.Grouping
import UmlDraw.Proofs.Text.Result

namespace UmlDraw

/-! ## Declarations place nothing

A line that declares an element does not say where it stands: the container around it is known to
the reader only. -/

open Scan

namespace Description
namespace Line

instance : bracketed.Honest := by
  unfold bracketed
  infer_instance

instance honest_enclosed (left right : Char) : (enclosed left right).Honest := by
  unfold enclosed
  infer_instance

instance honest_business {p : Scan String} [p.Honest] : (business p).Honest := by
  unfold business
  infer_instance

instance : plain.Honest := by
  unfold plain
  infer_instance

instance : interfaceSign.Honest := by
  unfold interfaceSign
  infer_instance

instance : shape.Honest := by
  refine Honest.anyOf fun p hp => ?_
  simp only [List.mem_cons, List.not_mem_nil, or_false] at hp
  rcases hp with rfl | rfl | rfl | rfl | rfl | rfl <;> infer_instance

instance : linkBody.Honest := by
  refine Honest.anyOf fun p hp => ?_
  obtain ⟨c, -, rfl⟩ := List.mem_map.1 hp
  infer_instance

instance honest_shortEnd {c : Scan String} [c.Honest] : (shortEnd c).Honest := by
  unfold shortEnd
  infer_instance

/-- The element that a line declares, at once or in the lines that follow, has no container. -/
def PlacesNothing : Line → Prop
  | declare e => e.containerPath = none
  | labelStart (.brackets e) _ => e.containerPath = none
  | _ => True

lemma placesNothing_settle {line : ElementKind → Line} (hline : ∀ kind, (line kind).PlacesNothing)
    (kind : Except UnknownKeyword ElementKind) : (settle line kind).PlacesNothing := by
  cases kind with
  | ok kind => exact hline kind
  | error k => trivial

lemma placesNothing_shortOf (name : Name) (kind : ElementKind)
    (more : List String × Option String) : (shortOf name kind more).PlacesNothing :=
  rfl

lemma yields_first : ∀ p ∈ [readTitle, readDirection, readTogether],
    p.Yields PlacesNothing := by
  simp only [List.forall_mem_cons]
  refine ⟨?_, ?_, ?_, List.forall_mem_nil _⟩
  · exact Yields.bind fun _ => Yields.pure trivial
  · exact Yields.bind fun _ => Yields.bind fun _ => Yields.pure trivial
  · unfold readTogether
    iterate 4 refine Yields.bind fun _ => ?_
    exact Yields.pure trivial

lemma yields_labelStarts (dialect : Dialect) : ∀ p ∈ labelStarts dialect,
    p.Yields PlacesNothing := by
  cases dialect with
  | useCases => exact List.forall_mem_nil _
  | components =>
    simp only [labelStarts, List.forall_mem_cons]
    refine ⟨?_, ?_, List.forall_mem_nil _⟩
    · unfold readBracketStart
      iterate 12 refine Yields.bind fun _ => ?_
      refine Yields.pure (placesNothing_settle (fun kind => ?_) _)
      rfl
    · unfold readQuoteStart
      iterate 5 refine Yields.bind fun _ => ?_
      refine Yields.pure (placesNothing_settle (fun kind => ?_) _)
      trivial

lemma yields_shorts (dialect : Dialect) : ∀ p ∈ shorts dialect, p.Yields PlacesNothing := by
  have hshort : ∀ left right kindOf, (readShort left right kindOf).Yields PlacesNothing := by
    intro left right kindOf
    exact Yields.bind fun _ => Yields.bind fun _ => Yields.bind fun _ => Yields.bind fun _ =>
      Yields.pure (placesNothing_shortOf _ _ _)
  have hcomponent : readShortComponent.Yields PlacesNothing :=
    Yields.bind fun _ => Yields.bind fun _ => Yields.bind fun _ =>
      Yields.pure (placesNothing_shortOf _ _ _)
  have hinterface : readShortInterface.Yields PlacesNothing :=
    Yields.bind fun _ => Yields.bind fun _ => Yields.bind fun _ =>
      Yields.pure (placesNothing_shortOf _ _ _)
  cases dialect with
  | useCases => simp [shorts, hshort]
  | components => simp [shorts, hshort, hcomponent, hinterface]

lemma placesNothing_container? {s : List Char} {l : Line} (h : container? s = some l) :
    l.PlacesNothing := by
  simp only [container?, Option.bind_eq_bind, Option.bind_eq_some_iff] at h
  obtain ⟨⟨kind, text⟩, -, ⟨name, rest⟩, -, h⟩ := h
  obtain rfl := Option.some.inj h
  refine placesNothing_settle (fun kind => ?_) kind
  trivial

lemma placesNothing_declaration? {dialect : Dialect} {s : List Char} {l : Line}
    (h : declaration? dialect s = some l) : l.PlacesNothing := by
  simp only [declaration?, Option.bind_eq_bind, Option.bind_eq_some_iff] at h
  obtain ⟨⟨kind, text⟩, -, ⟨name, rest⟩, -, h⟩ := h
  obtain rfl := Option.some.inj h
  refine placesNothing_settle (fun kind => ?_) kind
  rfl

/-- What a line declares has no container. -/
theorem placesNothing_of_read? {dialect : Dialect} {s : List Char} {l : Line}
    (h : read? dialect s = some l) : l.PlacesNothing := by
  have hwhole : ∀ forms : List (Scan Line), (∀ p ∈ forms, p.Yields PlacesNothing) →
      (Scan.anyOf forms).whole s = some l → l.PlacesNothing :=
    fun forms hforms hl => (Yields.anyOf hforms).of_whole hl
  have hend : readBlockEnd.Yields PlacesNothing :=
    Yields.bind fun _ => Yields.bind fun _ => Yields.pure trivial
  have hdisplay : readDisplay.Yields PlacesNothing :=
    Yields.bind fun _ => Yields.bind fun _ => Yields.bind fun _ => Yields.pure trivial
  have hnote : readNote.Yields PlacesNothing := Yields.bind fun _ => Yields.pure trivial
  have hlink : readLink.Yields PlacesNothing := Yields.bind fun _ => Yields.pure trivial
  simp only [read?, Option.or_eq_some_iff] at h
  rcases h with h | ⟨-, h | ⟨-, h | ⟨-, h | ⟨-, h⟩⟩⟩⟩
  · exact hwhole _ yields_first h
  · exact placesNothing_container? h
  · refine hwhole _ (List.forall_mem_append.2 ⟨?_, yields_labelStarts dialect⟩) h
    simp [hend, hdisplay]
  · exact placesNothing_declaration? h
  · refine hwhole _ (List.forall_mem_append.2 ⟨?_, yields_shorts dialect⟩) h
    simp [hnote, hlink]

end Line
end Description
end UmlDraw

/-! ## What names stand for

A name in a link makes an element, unless the reader knows what it stands for: an element, a
container or a free note.  Containers are known from the line that opens them on.  A free note is
known from its first line on, but as long as its text goes on no line is read as a link.  So both
ends of every link stand for something that is in the diagram. -/

namespace UmlDraw
namespace Description

/-- Every element stands under its own code, and its container is one of those with the given
labels. -/
structure Placed (elements : Keyed Element) (labels : List (ContainerHead × String)) : Prop where
  code : ∀ code e, elements.get? code = some e → e.code = code
  path : ∀ code e path, elements.get? code = some e → e.containerPath = some path →
    ∃ head, (head, path) ∈ labels

variable {elements : Keyed Element} {labels labels' : List (ContainerHead × String)}

lemma Placed.mono (h : Placed elements labels) (hsub : labels ⊆ labels') :
    Placed elements labels' where
  code := h.code
  path := by
    intro code e path he hpath
    obtain ⟨head, hhead⟩ := h.path code e path he hpath
    exact ⟨head, hsub hhead⟩

lemma Placed.insert (h : Placed elements labels) {e : Element} (he : e.containerPath = none) :
    Placed (elements.insert e.code e) labels := by
  constructor
  · intro code e' h'
    rw [Keyed.get?_insert] at h'
    split at h'
    · next hcode =>
      obtain rfl := Option.some.inj h'
      exact hcode.symm
    · exact h.code code e' h'
  · intro code e' path h' hpath
    rw [Keyed.get?_insert] at h'
    split at h'
    · obtain rfl := Option.some.inj h'
      rw [he] at hpath
      cases hpath
    · exact h.path code e' path h' hpath

/-- An element is changed, but keeps its code and goes nowhere but to a known container. -/
lemma Placed.modify (h : Placed elements labels) (code : String) {f : Element → Element}
    (hcode : ∀ e, (f e).code = e.code)
    (hpath : ∀ e path, (f e).containerPath = some path →
      e.containerPath = some path ∨ ∃ head, (head, path) ∈ labels) :
    Placed (elements.modify code f) labels := by
  have hget : ∀ other e', (elements.modify code f).get? other = some e' →
      elements.get? other = some e' ∨ ∃ e, elements.get? other = some e ∧ f e = e' := by
    intro other e' h'
    rw [Keyed.get?_modify] at h'
    split at h'
    · exact .inr (Option.map_eq_some_iff.1 h')
    · exact .inl h'
  constructor
  · intro other e' h'
    rcases hget other e' h' with h' | ⟨e, he, rfl⟩
    · exact h.code other e' h'
    · exact (hcode e).trans (h.code other e he)
  · intro other e' path h' hp
    rcases hget other e' h' with h' | ⟨e, he, rfl⟩
    · exact h.path other e' path h' hp
    · exact (hpath e path hp).elim (h.path other e path he) id

namespace Reader

variable {r r' r'' : Reader}

/-- The second reader comes from the first one by lines that make, place and change elements. -/
structure Builds (r r' : Reader) : Prop where
  rest : ∃ elements nesting, r' = { r with elements := elements, nesting := nesting }
  keys : ∀ code ∈ r.elements.keys, code ∈ r'.elements.keys
  labels : r'.nesting.labels = r.nesting.labels
  placed : Placed r.elements r.nesting.labels → Placed r'.elements r'.nesting.labels

lemma Builds.refl (r : Reader) : r.Builds r :=
  ⟨⟨_, _, rfl⟩, fun _ h => h, rfl, fun h => h⟩

lemma Builds.trans (h : r.Builds r') (h' : r'.Builds r'') : r.Builds r'' where
  rest := by
    obtain ⟨_, _, rfl⟩ := h.rest
    obtain ⟨elements, nesting, rfl⟩ := h'.rest
    exact ⟨elements, nesting, rfl⟩
  keys := fun code hcode => h'.keys code (h.keys code hcode)
  labels := h'.labels.trans h.labels
  placed := fun hr => h'.placed (h.placed hr)

/-- New elements in place of the old ones. -/
lemma builds_elements (hkeys : ∀ code ∈ r.elements.keys, code ∈ elements.keys)
    (hplaced : Placed r.elements r.nesting.labels → Placed elements r.nesting.labels) :
    r.Builds { r with elements := elements } :=
  ⟨⟨_, _, rfl⟩, hkeys, rfl, hplaced⟩

/-- New members of open blocks in place of the old ones. -/
lemma builds_nesting {nesting : Nesting ContainerHead} (h : nesting.labels = r.nesting.labels) :
    r.Builds { r with nesting := nesting } :=
  ⟨⟨_, _, rfl⟩, fun _ hcode => hcode, h, fun hplaced => h.symm ▸ hplaced⟩

lemma builds_place (r : Reader) (code : String) : r.Builds (r.place code) := by
  have htogether : ∀ r : Reader, r.Builds
      { r with nesting := r.nesting.enterTogether (Nesting.addOnce code) } := fun r =>
    builds_nesting (Nesting.labels_enterTogether _ _)
  unfold place
  dsimp only
  split
  · next path hpath =>
    have hopen : r.nesting.path? = some path := by
      split at hpath
      · cases hpath
      · exact hpath
    have hmove : r.Builds { r with
        elements := r.elements.modify code fun e => { e with containerPath := some path } } := by
      refine builds_elements (fun other h => by rwa [Keyed.keys_modify]) fun h => ?_
      refine h.modify code (fun e => rfl) fun e path' hpath' => .inr ?_
      -- the innermost open container is one that is known
      obtain rfl := Option.some.inj hpath'
      exact Nesting.exists_label_of_path? hopen
    exact (hmove.trans (builds_nesting (Nesting.labels_enterFolder _ _))).trans (htogether _)
  · exact htogether r

lemma builds_declare (r : Reader) {e : Element} (he : e.containerPath = none) :
    r.Builds (r.declare e) := by
  refine (builds_elements (fun other h => ?_) fun h => ?_).trans (builds_place _ _)
  · split
    · rwa [Keyed.keys_modify]
    · exact Keyed.mem_keys_insert.2 (.inl h)
  · split
    · exact h.modify _ (fun _ => rfl) fun _ _ hpath => .inl hpath
    · exact h.insert he

/-- The free notes so far, with the one whose text goes on. -/
def allNotes (r : Reader) : List Note :=
  match r.body with
  | some (.note n _) => r.notes ++ [n]
  | _ => r.notes

/-- A code stands for an element, for a container or for a free note that is finished. -/
def Known (r : Reader) (code : String) : Prop :=
  code ∈ r.elements.keys ∨ (∃ x ∈ r.nesting.labels, x.1.code = code) ∨
    code ∈ Relation.freeCodes r.notes

/-- What every line keeps: elements are placed in containers that are known, links join what is
known, and the codes of free notes are those of notes. -/
structure Sound (r : Reader) : Prop where
  placed : Placed r.elements r.nesting.labels
  ends : ∀ l ∈ r.links, r.Known l.source.code ∧ r.Known l.target.code
  noteCodes : ∀ code ∈ r.noteCodes, code ∈ Relation.freeCodes r.allNotes
  body : ∀ e lines, r.body = some (.label (.brackets e) lines) → e.containerPath = none

lemma Known.mono {code : String} (h : r.Known code)
    (hkeys : ∀ code ∈ r.elements.keys, code ∈ r'.elements.keys)
    (hlabels : r.nesting.labels ⊆ r'.nesting.labels)
    (hnotes : Relation.freeCodes r.notes ⊆ Relation.freeCodes r'.notes) : r'.Known code := by
  rcases h with h | ⟨x, hx, hcode⟩ | h
  · exact .inl (hkeys code h)
  · exact .inr (.inl ⟨x, hlabels hx, hcode⟩)
  · exact .inr (.inr (hnotes h))

lemma Builds.known (h : r.Builds r') {code : String} (hcode : r.Known code) : r'.Known code := by
  refine hcode.mono h.keys (fun x hx => by rwa [h.labels]) ?_
  obtain ⟨_, _, rfl⟩ := h.rest
  exact List.Subset.refl _

lemma Builds.sound (h : r.Builds r') (hr : r.Sound) : r'.Sound := by
  have hknown : ∀ code, r.Known code → r'.Known code := fun _ => h.known
  have hplaced := h.placed hr.placed
  obtain ⟨_, _, rfl⟩ := h.rest
  exact ⟨hplaced, fun l hl => (hr.ends l hl).imp (hknown _) (hknown _), hr.noteCodes, hr.body⟩

/-- A name makes what it stands for, if that is not known yet. -/
lemma builds_mention (r : Reader) (ref : Reference) : r.Builds (r.mention ref) := by
  unfold mention
  split
  · exact Builds.refl r
  · refine (builds_elements (fun other h => ?_) fun h => ?_).trans (builds_place _ _)
    · exact Keyed.mem_keys_insert.2 (.inl h)
    · exact h.insert (e := Element.named ref.code ref.display ref.kind) rfl

lemma known_mention (hr : r.Sound) (hbody : r.body = none) (ref : Reference) :
    (r.mention ref).Known ref.code := by
  unfold mention
  split
  · next hknown =>
    simp only [Bool.or_eq_true, List.contains_iff_mem] at hknown
    rcases hknown with (hnote | helement) | hcontainer
    · have hcode := hr.noteCodes _ hnote
      rw [allNotes, hbody] at hcode
      exact .inr (.inr hcode)
    · exact .inl (Keyed.contains_iff.1 helement)
    · obtain ⟨head, hhead, hcode⟩ := List.any_eq_true.1 hcontainer
      rw [Nesting.heads_eq] at hhead
      obtain ⟨x, hx, rfl⟩ := List.mem_map.1 hhead
      exact .inr (.inl ⟨x, hx, eq_of_beq hcode⟩)
  · refine .inl ((builds_place _ _).keys _ ?_)
    exact Keyed.mem_keys_insert.2 (.inr rfl)

lemma Sound.mention (hr : r.Sound) (ref : Reference) : (r.mention ref).Sound :=
  (builds_mention r ref).sound hr

lemma body_mention (r : Reader) (ref : Reference) : (r.mention ref).body = r.body := by
  obtain ⟨_, _, h⟩ := (builds_mention r ref).rest
  rw [h]

lemma Sound.addLink (hr : r.Sound) (hbody : r.body = none) (l : Link) : (r.addLink l).Sound := by
  have hsource := known_mention hr hbody (Line.reference r.dialect l.source.code)
  have hr₁ := hr.mention (Line.reference r.dialect l.source.code)
  have hbody₁ := (body_mention r (Line.reference r.dialect l.source.code)).trans hbody
  have hr₂ := hr₁.mention (Line.reference r.dialect l.target.code)
  have htarget := known_mention hr₁ hbody₁ (Line.reference r.dialect l.target.code)
  refine ⟨hr₂.placed, fun l' hl' => ?_, hr₂.noteCodes, hr₂.body⟩
  rcases List.mem_append.1 hl' with hl' | hl'
  · exact hr₂.ends l' hl'
  · rw [List.mem_singleton.1 hl']
    exact ⟨(builds_mention _ _).known hsource, htarget⟩

lemma free?_settle (r : Reader) (n : Note) : (r.settle n).target.free? = n.target.free? := by
  unfold settle
  split
  · next h => rw [h]; rfl
  · next h => rw [h]; rfl
  · rfl

/-- A note is remembered by its code, if it has one. -/
lemma exists_noteCodes_rememberNote (r : Reader) (n : Note) :
    ∃ codes, r.rememberNote n = { r with noteCodes := codes } ∧
      ∀ code ∈ codes, code ∈ r.noteCodes ∨ n.target.free? = some code := by
  unfold rememberNote
  split
  · next code hcode =>
    refine ⟨_, rfl, fun other hother => ?_⟩
    rw [hcode]
    exact (Nesting.mem_addOnce.1 hother).imp_right fun h => congrArg some h.symm
  · exact ⟨r.noteCodes, rfl, fun _ h => .inl h⟩

lemma mem_freeCodes_concat {ns : List Note} {n : Note} {code : String} :
    code ∈ Relation.freeCodes (ns ++ [n]) ↔
      code ∈ Relation.freeCodes ns ∨ n.target.free? = some code := by
  simp [Relation.freeCodes]

lemma Sound.apply (hr : r.Sound) (hbody : r.body = none) {line : Line}
    (hline : line.PlacesNothing) : (r.apply line).Sound := by
  have hnotes : ∀ code ∈ r.noteCodes, code ∈ Relation.freeCodes r.notes := by
    intro code hcode
    have hall := hr.noteCodes code hcode
    rwa [allNotes, hbody] at hall
  cases line with
  | title | direction | display | faulty => exact ⟨hr.placed, hr.ends, hr.noteCodes, hr.body⟩
  | together => exact (builds_nesting (Nesting.labels_openTogether _)).sound hr
  | container head =>
    have hlabels : r.nesting.labels ⊆ (r.nesting.openFolder head head.code).labels :=
      fun x hx => Nesting.mem_labels_openFolder hx
    refine ⟨hr.placed.mono hlabels, fun l hl => ?_, hr.noteCodes, hr.body⟩
    have hknown : ∀ code, r.Known code → (r.apply (.container head)).Known code := fun _ h =>
      h.mono (fun _ h => h) hlabels (List.Subset.refl _)
    exact (hr.ends l hl).imp (hknown _) (hknown _)
  | blockEnd =>
    have hlabels : r.nesting.labels ⊆ r.nesting.close.labels :=
      fun x hx => Nesting.mem_labels_close.2 hx
    refine ⟨hr.placed.mono hlabels, fun l hl => ?_, hr.noteCodes, hr.body⟩
    have hknown : ∀ code, r.Known code → (r.apply .blockEnd).Known code := fun _ h =>
      h.mono (fun _ h => h) hlabels (List.Subset.refl _)
    exact (hr.ends l hl).imp (hknown _) (hknown _)
  | labelStart l lines =>
    refine ⟨hr.placed, hr.ends, fun code hcode => hnotes code hcode, fun e lines' h => ?_⟩
    cases h
    exact hline
  | declare e => exact (builds_declare r hline).sound hr
  | note n =>
    cases n with
    | complete n =>
      obtain ⟨codes, heq, hcodes⟩ := exists_noteCodes_rememberNote r n
      show Sound { r.rememberNote n with notes := (r.rememberNote n).notes ++ [r.settle n] }
      rw [heq]
      refine ⟨hr.placed, fun l hl => ?_, fun code hcode => ?_, hr.body⟩
      · have hknown : ∀ code, r.Known code →
            Known { r with noteCodes := codes, notes := r.notes ++ [r.settle n] } code := fun _ h =>
          h.mono (fun _ h => h) (List.Subset.refl _)
            fun _ h => mem_freeCodes_concat.2 (.inl h)
        exact (hr.ends l hl).imp (hknown _) (hknown _)
      · simp only [allNotes, hbody]
        rw [mem_freeCodes_concat, free?_settle]
        exact (hcodes code hcode).imp_left (hnotes code)
    | start n =>
      obtain ⟨codes, heq, hcodes⟩ := exists_noteCodes_rememberNote r n
      show Sound { r.rememberNote n with body := some (.note (r.settle n) []) }
      rw [heq]
      refine ⟨hr.placed, hr.ends, fun code hcode => ?_, fun _ _ h => (nomatch h)⟩
      simp only [allNotes]
      rw [mem_freeCodes_concat, free?_settle]
      exact (hcodes code hcode).imp_left (hnotes code)
  | link l => exact hr.addLink hbody l

lemma containerPath_endLabel {count : Nat} {lines : List (List Char)} {s : List Char}
    {l : OpenLabel} {e : Element} (hl : ∀ e', l = .brackets e' → e'.containerPath = none)
    (h : endLabel count lines s l = some e) : e.containerPath = none := by
  cases l with
  | brackets e' =>
    simp only [endLabel, Option.bind_eq_bind, Option.bind_eq_some_iff] at h
    obtain ⟨last, -, h⟩ := h
    obtain rfl := Option.some.inj h
    exact hl e' rfl
  | quotes kind =>
    simp only [endLabel, Option.bind_eq_bind, Option.bind_eq_some_iff] at h
    obtain ⟨_, -, h⟩ := h
    obtain rfl := Option.some.inj h
    rfl

/-- What every line keeps. -/
theorem Sound.step (hr : r.Sound) (line : SourceLine) : (r.step line).Sound := by
  unfold Reader.step
  split
  · next n lines hbody =>
    have hall : r.allNotes = r.notes ++ [n] := by rw [allNotes, hbody]
    have hcodes : ∀ code ∈ r.noteCodes, code ∈ Relation.freeCodes (r.notes ++ [n]) :=
      hall ▸ hr.noteCodes
    split
    · -- the note is finished
      refine ⟨hr.placed, fun l hl => ?_, fun code hcode => ?_, fun _ _ h => (nomatch h)⟩
      · have hknown : ∀ code, r.Known code → Known { r with
            notes := r.notes ++ [{ n with text := Label.dedent lines }], body := none } code :=
          fun _ h => h.mono (fun _ h => h) (List.Subset.refl _)
            fun _ h => mem_freeCodes_concat.2 (.inl h)
        exact (hr.ends l hl).imp (hknown _) (hknown _)
      · have hcode := mem_freeCodes_concat.1 (hcodes code hcode)
        exact mem_freeCodes_concat.2 hcode
    · exact ⟨hr.placed, hr.ends, hcodes, fun _ _ h => (nomatch h)⟩
  · next l lines hbody =>
    have hcodes : ∀ code ∈ r.noteCodes, code ∈ Relation.freeCodes r.notes := by
      intro code hcode
      have hall := hr.noteCodes code hcode
      rwa [allNotes, hbody] at hall
    split
    · next e he =>
      have hclosed : Sound { r with body := none } := ⟨hr.placed, hr.ends, hcodes, fun _ _ h => (nomatch h)⟩
      refine (builds_declare _ (containerPath_endLabel (fun e' hl => ?_) he)).sound hclosed
      exact hr.body e' lines (hl ▸ hbody)
    · refine ⟨hr.placed, hr.ends, hcodes, fun e lines' h => ?_⟩
      cases h
      exact hr.body e lines hbody
  · next hbody =>
    split
    · exact hr
    · split
      · next l hl => exact hr.apply hbody (Line.placesNothing_of_read? hl)
      · exact hr

lemma Sound.foldl_step (hr : r.Sound) (lines : List SourceLine) : (lines.foldl Reader.step r).Sound := by
  induction lines generalizing r with
  | nil => exact hr
  | cons line rest ih => exact ih (hr.step line)

lemma sound_start (dialect : Dialect) : Sound { dialect := dialect } where
  placed := ⟨fun _ _ h => (nomatch h), fun _ _ _ h => (nomatch h)⟩
  ends := fun _ h => nomatch h
  noteCodes := fun _ h => nomatch h
  body := fun _ _ h => (nomatch h)

end Reader

namespace Diagram

/-- The code of a container. -/
def IsContainer (d : Diagram) (code : String) : Prop :=
  ∃ c ∈ Folder.walkAll d.containers, c.head.code = code

/-- Every element stands under its own code, its container is one of the diagram, and the ends of
links are elements, containers or free notes. -/
structure Resolved (d : Diagram) : Prop where
  code : ∀ code e, d.elements.get? code = some e → e.code = code
  path : ∀ code e path, d.elements.get? code = some e → e.containerPath = some path →
    ∃ c ∈ Folder.walkAll d.containers, c.path = path
  ends : ∀ l ∈ d.links, ∀ code ∈ [l.source.code, l.target.code],
    code ∈ d.elements.keys ∨ d.IsContainer code ∨ code ∈ Relation.freeCodes d.notes

/-- The names in a diagram that was read stand for something in it. -/
theorem resolved_read {dialect : Dialect} {text : String} {d : Diagram}
    (hread : read dialect text = .ok d) : d.Resolved := by
  obtain ⟨-, rfl⟩ := Fault.check_eq_ok_iff.1 hread
  have hr := (Reader.sound_start dialect).foldl_step (Source.lines text)
  generalize (Source.lines text).foldl Reader.step { dialect := dialect } = r at hr
  have hlabels : ∀ x ∈ r.nesting.labels, ∃ c ∈ Folder.walkAll r.finish.containers, c.label = x :=
    fun x hx => List.mem_map.1 (Nesting.mem_labels_iff.1 hx)
  refine ⟨hr.placed.code, fun code e path he hpath => ?_, fun l hl code hcode => ?_⟩
  · obtain ⟨head, hhead⟩ := hr.placed.path code e path he hpath
    obtain ⟨c, hc, hlabel⟩ := hlabels _ hhead
    exact ⟨c, hc, congrArg Prod.snd hlabel⟩
  · have hknown : r.Known code := by
      obtain ⟨hsource, htarget⟩ := hr.ends l hl
      rcases List.mem_cons.1 hcode with rfl | hcode
      · exact hsource
      · exact List.mem_singleton.1 hcode ▸ htarget
    refine hknown.imp_right (Or.imp_left ?_)
    rintro ⟨x, hx, rfl⟩
    obtain ⟨c, hc, rfl⟩ := hlabels x hx
    exact ⟨c, hc, rfl⟩

end Diagram
end Description
end UmlDraw
