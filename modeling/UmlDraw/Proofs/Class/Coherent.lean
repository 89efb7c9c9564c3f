/-
# What the parts of a class diagram refer to

Packages and groups list the codes of entities, links join entities and free notes, and notes speak
of links.  An entity is known as soon as a line names it, but that of a body only when the body
ends: until then the rows of a map have links that start at a code without an entity.  No other
body can begin meanwhile, so at the end of a text there is at most one such code.

The main statements are

* `Reader.Sound.step`: what every line keeps;
* `Diagram.coherent_read`: what holds of a diagram that was read.
-/
import UmlDraw.Proofs.Class.Reader
import UmlDraw.Proofs.Data.Outcome
import UmlDraw.Proofs.Drawing.Cluster
import UmlDraw.Proofs.Layout.Grouping

namespace UmlDraw

/-- A mark at the source comes with one at the target, since links are turned around. -/
lemma Link.mark_target_oriented {l : Link} (h : l.oriented.source.mark ≠ .none) :
    l.oriented.target.mark ≠ .none := by
  unfold oriented at h ⊢
  split
  · next hturn => exact hturn.1
  · next hturn =>
    rw [if_neg hturn] at h
    exact fun htarget => hturn ⟨h, htarget⟩

/-- Turning a link around keeps the codes at its ends. -/
lemma Link.oriented_ends {l : Link} {p : String → Prop} (hsource : p l.source.code)
    (htarget : p l.target.code) : p l.oriented.source.code ∧ p l.oriented.target.code := by
  unfold oriented
  split
  · exact ⟨htarget, hsource⟩
  · exact ⟨hsource, htarget⟩

namespace Class
namespace Reader

variable {r r' r'' : Reader}

/-- The code of the map whose body is open. -/
def openMap? (r : Reader) : Option String :=
  match r.body with
  | some (.entries e) => some e.code
  | _ => none

/-- The notes so far, with the one whose text goes on. -/
def allNotes (r : Reader) : List Note :=
  match r.body with
  | some (.note n _) => r.notes ++ [n]
  | _ => r.notes

/-- A code stands for an entity, for a free note that is finished or for the map whose body is
open. -/
def Known (r : Reader) (code : String) : Prop :=
  code ∈ r.entities.keys ∨ code ∈ Relation.freeCodes r.notes ∨ r.openMap? = some code

/-- What every line keeps. -/
structure Sound (r : Reader) : Prop where
  /-- Packages and groups list entities, packages each of them once. -/
  listed : r.nesting.Lists (fun ms => ms.Nodup ∧ ms ⊆ r.entities.keys) (· ⊆ r.entities.keys)
  marks : ∀ l ∈ r.links, l.source.mark ≠ .none → l.target.mark ≠ .none
  ends : ∀ l ∈ r.links, r.Known l.source.code ∧ r.Known l.target.code
  /-- Lines that name free notes make no entities for them. -/
  noteCodes : ∀ code ∈ r.noteCodes, code ∈ Relation.freeCodes r.allNotes
  noteLinks : ∀ n ∈ r.allNotes, ∀ i, n.target.link? = some i → i < r.links.length

/-! ### Lines that list, link and note nothing -/

/-- The second reader comes from the first one by lines that make and change entities, and perhaps
begin or continue a body. -/
structure Keeps (r r' : Reader) : Prop where
  keys : r.entities.keys ⊆ r'.entities.keys
  nesting : r'.nesting = r.nesting
  links : r'.links = r.links
  notes : r'.notes = r.notes
  noteCodes : r'.noteCodes = r.noteCodes
  allNotes : r'.allNotes = r.allNotes
  map : ∀ code, r.openMap? = some code → r'.openMap? = some code

lemma Keeps.refl (r : Reader) : r.Keeps r :=
  ⟨List.Subset.refl _, rfl, rfl, rfl, rfl, rfl, fun _ h => h⟩

lemma Keeps.trans (h : r.Keeps r') (h' : r'.Keeps r'') : r.Keeps r'' where
  keys := List.Subset.trans h.keys h'.keys
  nesting := h'.nesting.trans h.nesting
  links := h'.links.trans h.links
  notes := h'.notes.trans h.notes
  noteCodes := h'.noteCodes.trans h.noteCodes
  allNotes := h'.allNotes.trans h.allNotes
  map := fun code hcode => h'.map code (h.map code hcode)

lemma Known.mono {code : String} (h : r.Known code) (hkeys : r.entities.keys ⊆ r'.entities.keys)
    (hnotes : Relation.freeCodes r.notes ⊆ Relation.freeCodes r'.notes)
    (hmap : r.openMap? = some code → r'.Known code) : r'.Known code := by
  rcases h with h | h | h
  · exact .inl (hkeys h)
  · exact .inr (.inl (hnotes h))
  · exact hmap h

lemma Keeps.known (h : r.Keeps r') {code : String} (hcode : r.Known code) : r'.Known code := by
  refine hcode.mono h.keys ?_ fun hmap => .inr (.inr (h.map code hmap))
  rw [h.notes]
  exact List.Subset.refl _

lemma listed_mono {n : Nesting PackageHead} {keys keys' : List String}
    (h : n.Lists (fun ms => ms.Nodup ∧ ms ⊆ keys) (· ⊆ keys)) (hkeys : keys ⊆ keys') :
    n.Lists (fun ms => ms.Nodup ∧ ms ⊆ keys') (· ⊆ keys') :=
  h.imp (fun _ hms => hms.imp_right fun hsub => List.Subset.trans hsub hkeys)
    fun _ hsub => List.Subset.trans hsub hkeys

lemma Keeps.sound (h : r.Keeps r') (hr : r.Sound) : r'.Sound where
  listed := h.nesting ▸ listed_mono hr.listed h.keys
  marks := h.links ▸ hr.marks
  ends := h.links ▸ fun l hl => (hr.ends l hl).imp h.known h.known
  noteCodes := h.noteCodes ▸ h.allNotes ▸ hr.noteCodes
  noteLinks := h.allNotes ▸ h.links ▸ hr.noteLinks

/-- Entities are made and changed. -/
lemma keeps_entities {entities : Keyed Entity} (h : r.entities.keys ⊆ entities.keys) :
    r.Keeps { r with entities := entities } :=
  ⟨h, rfl, rfl, rfl, rfl, rfl, fun _ hmap => hmap⟩

/-- A body begins or goes on, but no note. -/
lemma keeps_body {body : Option OpenBody} (hnotes : allNotes { r with body := body } = r.allNotes)
    (hmap : ∀ code, r.openMap? = some code → openMap? { r with body := body } = some code) :
    r.Keeps { r with body := body } :=
  ⟨List.Subset.refl _, rfl, rfl, rfl, rfl, hnotes, hmap⟩

lemma keeps_create (r : Reader) (code : String) : r.Keeps (r.create code) := by
  unfold create
  split
  · exact .refl r
  · exact keeps_entities fun _ h => Keyed.mem_keys_insert.2 (.inl h)

lemma keeps_mention (r : Reader) (code : String) : r.Keeps (r.mention code) := by
  unfold mention
  split
  · exact .refl r
  · exact keeps_create r code

/-- Naming a code changes the entities only. -/
lemma exists_mention (r : Reader) (code : String) :
    ∃ entities, r.mention code = { r with entities := entities } := by
  unfold mention create
  split
  · exact ⟨_, rfl⟩
  · split <;> exact ⟨_, rfl⟩

lemma body_mention (r : Reader) (code : String) : (r.mention code).body = r.body := by
  obtain ⟨_, heq⟩ := exists_mention r code
  rw [heq]

/-- Outside of notes a name that a line mentions is known from then on. -/
lemma known_mention (hr : r.Sound) (hnotes : r.allNotes = r.notes) (code : String) :
    (r.mention code).Known code := by
  unfold mention
  split
  · next hcode =>
    have hfree := hr.noteCodes code (List.contains_iff_mem.1 hcode)
    exact .inr (.inl (hnotes ▸ hfree))
  · left
    unfold create
    split
    · next hkey => exact Keyed.contains_iff.1 hkey
    · exact Keyed.mem_keys_insert.2 (.inr rfl)

lemma allNotes_of_body_eq_none (hbody : r.body = none) : r.allNotes = r.notes := by
  rw [allNotes, hbody]

/-! ### Declarations -/

/-- The body of an entity ends, or it has none: the entity is listed and known from then on. -/
lemma Sound.closeBody (hr : r.Sound) (hnotes : r.allNotes = r.notes) {e : Entity}
    (hmap : ∀ code, r.openMap? = some code → code = e.code) : (r.closeBody e).Sound := by
  have hkeys : r.entities.keys ⊆ (r.closeBody e).entities.keys :=
    fun _ h => Keyed.mem_keys_insert.2 (.inl h)
  have hnew : e.code ∈ (r.closeBody e).entities.keys := Keyed.mem_keys_insert.2 (.inr rfl)
  have hknown : ∀ code, r.Known code → (r.closeBody e).Known code := fun code h =>
    h.mono hkeys (List.Subset.refl _) fun hcode => .inl (hmap code hcode ▸ hnew)
  refine ⟨?_, hr.marks, fun l hl => (hr.ends l hl).imp (hknown _) (hknown _), ?_, ?_⟩
  · refine Nesting.Lists.enterTogether ((listed_mono hr.listed hkeys).enterFolder ?_) ?_
    · rintro ms ⟨hnodup, hms⟩
      refine ⟨Nesting.nodup_addOnce hnodup _, fun code hcode => ?_⟩
      rcases Nesting.mem_addOnce.1 hcode with hcode | rfl
      · exact hms hcode
      · exact hnew
    · intro codes hcodes
      exact List.append_subset.2 ⟨hcodes, List.cons_subset.2 ⟨hnew, List.nil_subset _⟩⟩
  · intro code hcode
    have hfree := hr.noteCodes code hcode
    rwa [hnotes] at hfree
  · intro n hn
    exact hr.noteLinks n (hnotes.symm ▸ hn)

lemma Sound.declare (hr : r.Sound) (hbody : r.body = none) (e : Entity) : (r.declare e).Sound := by
  have hclose : r.closeBody e = r.declare e := by
    unfold Reader.closeBody
    rw [← hbody]
  rw [← hclose]
  refine hr.closeBody (allNotes_of_body_eq_none hbody) fun code hcode => ?_
  rw [openMap?, hbody] at hcode
  cases hcode

lemma keeps_openBody (hbody : r.body = none) (e : Entity) : r.Keeps (r.openBody e) := by
  refine keeps_body ?_ fun code hcode => ?_
  · rw [allNotes_of_body_eq_none hbody]
    unfold allNotes
    cases e.kind <;> rfl
  · rw [openMap?, hbody] at hcode
    cases hcode

lemma Sound.addDeclaration (hr : r.Sound) (hbody : r.body = none) (e : Entity) (hasBody : Bool) :
    (r.addDeclaration e hasBody).Sound := by
  have hmentions : ∀ codes : List String, r.Keeps (codes.foldl mention r) ∧
      (codes.foldl mention r).body = none := fun codes =>
    List.foldlRecOn codes mention (motive := fun r' => r.Keeps r' ∧ r'.body = none)
      ⟨.refl r, hbody⟩ fun r' h code _ =>
        ⟨h.1.trans (keeps_mention r' code), (body_mention r' code).trans h.2⟩
  obtain ⟨hkeeps, hbody'⟩ := hmentions (e.parents ++ e.interfaces)
  unfold Reader.addDeclaration
  cases hasBody with
  | true => exact (keeps_openBody hbody' e).sound (hkeeps.sound hr)
  | false => exact (hkeeps.sound hr).declare hbody' e

/-! ### Links -/

/-- A link between known names is added. -/
lemma Sound.concat (hr : r.Sound) {l : Link} (hsource : r.Known l.source.code)
    (htarget : r.Known l.target.code) (hmark : l.source.mark ≠ .none → l.target.mark ≠ .none) :
    Sound { r with links := r.links ++ [l] } where
  listed := hr.listed
  marks := List.forall_mem_append.2 ⟨hr.marks, List.forall_mem_singleton.2 hmark⟩
  ends := List.forall_mem_append.2 ⟨hr.ends, List.forall_mem_singleton.2 ⟨hsource, htarget⟩⟩
  noteCodes := hr.noteCodes
  noteLinks := by
    intro n hn i hi
    rw [List.length_append]
    exact Nat.lt_add_right 1 (hr.noteLinks n hn i hi)

lemma Sound.addLink (hr : r.Sound) (hbody : r.body = none) (l : Link) : (r.addLink l).Sound := by
  let source := Label.unquote l.source.code
  let target := Label.unquote l.target.code
  have hr₁ := (keeps_mention r source).sound hr
  have hbody₁ : (r.mention source).body = none := (body_mention r source).trans hbody
  have hr₂ := (keeps_mention (r.mention source) target).sound hr₁
  have hsource := (keeps_mention (r.mention source) target).known
    (known_mention hr (allNotes_of_body_eq_none hbody) source)
  have htarget := known_mention hr₁ (allNotes_of_body_eq_none hbody₁) target
  obtain ⟨hsource', htarget'⟩ := (l.rename source target).oriented_ends hsource htarget
  exact hr₂.concat hsource' htarget' Link.mark_target_oriented

/-! ### Notes -/

lemma mem_freeCodes_concat {ns : List Note} {n : Note} {code : String} :
    code ∈ Relation.freeCodes (ns ++ [n]) ↔
      code ∈ Relation.freeCodes ns ∨ n.target.free? = some code := by
  simp [Relation.freeCodes]

/-- A note on a link speaks of the last one. -/
lemma lt_of_link?_settle {n : Note} {i : Nat} (h : (r.settle n).target.link? = some i) :
    i < r.links.length := by
  unfold settle at h
  split at h
  · cases h
  · dsimp only [NoteTarget.link?] at h
    split at h
    · cases h
    · next hempty =>
      have hlength : r.links.length ≠ 0 := fun hzero =>
        hempty (List.isEmpty_iff.2 (List.eq_nil_of_length_eq_zero hzero))
      rw [← Option.some.inj h]
      exact Nat.sub_one_lt hlength
  · next hfree =>
    rw [hfree] at h
    cases h

/-- What a note speaks of is made; the code of a free note is remembered. -/
lemma exists_mentionNote (r : Reader) (n : Note) :
    ∃ entities codes, r.mentionNote n = { r with entities := entities, noteCodes := codes } ∧
      r.entities.keys ⊆ entities.keys ∧
      ∀ code ∈ codes, code ∈ r.noteCodes ∨ n.target.free? = some code := by
  unfold mentionNote
  split
  · next code hcode =>
    obtain ⟨entities, heq⟩ := exists_mention r code
    refine ⟨entities, r.noteCodes, heq, ?_, fun _ h => .inl h⟩
    have hkeys := (keeps_mention r code).keys
    rwa [heq] at hkeys
  · exact ⟨r.entities, r.noteCodes, rfl, List.Subset.refl _, fun _ h => .inl h⟩
  · next code hcode =>
    refine ⟨r.entities, _, rfl, List.Subset.refl _, fun other hother => ?_⟩
    refine (Nesting.mem_addOnce.1 hother).imp_right fun h => ?_
    rw [hcode, h]
    rfl

/-- A note is added, be it finished or with its text in the next lines. -/
lemma Sound.addNote (hr : r.Sound) (hbody : r.body = none) {n : Note} {entities : Keyed Entity}
    {codes : List String} {notes : List Note} {body : Option OpenBody}
    (hkeys : r.entities.keys ⊆ entities.keys)
    (hcodes : ∀ code ∈ codes, code ∈ r.noteCodes ∨ n.target.free? = some code)
    (hlink : ∀ i, n.target.link? = some i → i < r.links.length)
    (hnotes : Relation.freeCodes r.notes ⊆ Relation.freeCodes notes)
    (hall : allNotes { r with
      entities := entities, noteCodes := codes, notes := notes, body := body } = r.notes ++ [n]) :
    Sound { r with entities := entities, noteCodes := codes, notes := notes, body := body } := by
  have hknown : ∀ code, r.Known code → Known { r with
      entities := entities, noteCodes := codes, notes := notes, body := body } code := by
    refine fun code h => h.mono hkeys hnotes fun hmap => ?_
    rw [openMap?, hbody] at hmap
    cases hmap
  have hbefore := allNotes_of_body_eq_none hbody
  refine ⟨listed_mono hr.listed hkeys, hr.marks, fun l hl => ?_, fun code hcode => ?_,
    fun m hm i hi => ?_⟩
  · exact (hr.ends l hl).imp (hknown _) (hknown _)
  · rw [hall]
    refine mem_freeCodes_concat.2 ((hcodes code hcode).imp_left fun h => ?_)
    have hfree := hr.noteCodes code h
    rwa [hbefore] at hfree
  · rw [hall] at hm
    rcases List.mem_append.1 hm with hm | hm
    · exact hr.noteLinks m (hbefore.symm ▸ hm) i hi
    · rw [List.mem_singleton.1 hm] at hi
      exact hlink i hi

/-- The text of a note ends. -/
lemma Sound.closeNote (hr : r.Sound) {n : Note} {lines : List (List Char)}
    (hbody : r.body = some (.note n lines)) (text : String) :
    Sound { r with notes := r.notes ++ [{ n with text := text }], body := none } := by
  have hall : r.allNotes = r.notes ++ [n] := by rw [allNotes, hbody]
  have hknown : ∀ code, r.Known code →
      Known { r with notes := r.notes ++ [{ n with text := text }], body := none } code := by
    refine fun code h => h.mono (List.Subset.refl _) (fun _ h => ?_) fun hmap => ?_
    · exact mem_freeCodes_concat.2 (.inl h)
    · rw [openMap?, hbody] at hmap
      cases hmap
  refine ⟨hr.listed, hr.marks, fun l hl => ?_, fun code hcode => ?_, fun m hm i hi => ?_⟩
  · exact (hr.ends l hl).imp (hknown _) (hknown _)
  · have hfree := hr.noteCodes code hcode
    rw [hall, mem_freeCodes_concat] at hfree
    exact mem_freeCodes_concat.2 hfree
  · rcases List.mem_append.1 hm with hm | hm
    · exact hr.noteLinks m (hall ▸ List.mem_append_left _ hm) i hi
    · rw [List.mem_singleton.1 hm] at hi
      exact hr.noteLinks n (hall ▸ List.mem_append_right _ (List.mem_singleton_self n)) i hi

/-! ### Lines -/

lemma Sound.apply (hr : r.Sound) (hbody : r.body = none) (line : Line) : (r.apply line).Sound := by
  have hnil : ([] : List String).Nodup ∧ [] ⊆ r.entities.keys :=
    ⟨List.nodup_nil, List.nil_subset _⟩
  cases line with
  | title | display | nothing | remove | faulty =>
    exact ⟨hr.listed, hr.marks, hr.ends, hr.noteCodes, hr.noteLinks⟩
  | together =>
    have hlisted := hr.listed.openTogether (List.nil_subset _)
    exact ⟨hlisted, hr.marks, hr.ends, hr.noteCodes, hr.noteLinks⟩
  | package head =>
    exact ⟨hr.listed.openFolder hnil _ _, hr.marks, hr.ends, hr.noteCodes, hr.noteLinks⟩
  | blockEnd => exact ⟨hr.listed.close, hr.marks, hr.ends, hr.noteCodes, hr.noteLinks⟩
  | note n =>
    cases n with
    | complete n =>
      obtain ⟨entities, codes, heq, hkeys, hcodes⟩ := exists_mentionNote r (r.settle n)
      show Sound { r.mentionNote (r.settle n) with
        notes := (r.mentionNote (r.settle n)).notes ++ [r.settle n] }
      rw [heq]
      refine hr.addNote hbody hkeys hcodes (fun i hi => lt_of_link?_settle hi) (fun _ h => ?_) ?_
      · exact mem_freeCodes_concat.2 (.inl h)
      · exact allNotes_of_body_eq_none hbody
    | start n =>
      obtain ⟨entities, codes, heq, hkeys, hcodes⟩ := exists_mentionNote r (r.settle n)
      show Sound { r.mentionNote (r.settle n) with body := some (.note (r.settle n) []) }
      rw [heq]
      exact hr.addNote hbody hkeys hcodes (fun i hi => lt_of_link?_settle hi)
        (List.Subset.refl _) rfl
  | declare e hasBody => exact hr.addDeclaration hbody e hasBody
  | link l => exact hr.addLink hbody l
  | member code m =>
    refine ((keeps_create r code).trans (keeps_entities fun other h => ?_)).sound hr
    rwa [Keyed.keys_modify]

lemma Sound.memberLine (hr : r.Sound) {e : Entity} (hbody : r.body = some (.members e))
    (s : List Char) : (r.memberLine e s).Sound := by
  have hopen : ∀ code, r.openMap? ≠ some code := fun code h => by simp [openMap?, hbody] at h
  have hnotes : r.allNotes = r.notes := by rw [allNotes, hbody]
  unfold Reader.memberLine
  split
  · exact hr.closeBody hnotes fun code h => absurd h (hopen code)
  · exact Keeps.sound (keeps_body hnotes.symm fun code h => absurd h (hopen code)) hr

lemma Sound.documentLine (hr : r.Sound) {e : Entity} {depth : Int} {lines : List (List Char)}
    (hbody : r.body = some (.document e depth lines)) (s : List Char) :
    (r.documentLine e depth lines s).Sound := by
  have hopen : ∀ code, r.openMap? ≠ some code := fun code h => by simp [openMap?, hbody] at h
  have hnotes : r.allNotes = r.notes := by rw [allNotes, hbody]
  unfold Reader.documentLine
  dsimp only
  split
  · exact hr.closeBody hnotes fun code h => absurd h (hopen code)
  · exact Keeps.sound (keeps_body hnotes.symm fun code h => absurd h (hopen code)) hr

/-- A row with a link starts it at the map, which has no entity yet. -/
lemma Sound.entryLine (hr : r.Sound) {e : Entity} (hbody : r.body = some (.entries e))
    (s : List Char) : (r.entryLine e s).Sound := by
  have hmap : r.openMap? = some e.code := by rw [openMap?, hbody]
  have hnotes : r.allNotes = r.notes := by rw [allNotes, hbody]
  have hbody' : ∀ {r' : Reader} (entry : MapEntry), r'.body = r.body → r'.Keeps
      { r' with body := some (.entries { e with entries := e.entries ++ [entry] }) } := by
    intro r' entry h
    refine keeps_body ?_ fun code hcode => ?_
    · rw [allNotes, allNotes, h, hbody]
    · rwa [openMap?, h, hbody] at hcode
  unfold Reader.entryLine
  split
  · refine hr.closeBody hnotes fun code hcode => ?_
    exact (Option.some.inj (hmap.symm.trans hcode)).symm
  · split
    · exact hr
    · next entry _ =>
      cases entry with
      | value key value => exact (hbody' _ rfl).sound hr
      | link key target =>
        obtain ⟨entities, heq⟩ := exists_mention r target
        have hkeeps := keeps_mention r target
        have hsource : (r.mention target).Known e.code := hkeeps.known (.inr (.inr hmap))
        have hlink := (hkeeps.sound hr).concat (l := rowLink e.code target) hsource
          (known_mention hr hnotes target) fun h => absurd rfl h
        refine Keeps.sound ?_ hlink
        have hlinks : (r.mention target).links = r.links := hkeeps.links
        rw [hlinks]
        exact hbody' _ (body_mention r target)

/-- What every line keeps. -/
theorem Sound.step (hr : r.Sound) (line : SourceLine) : (r.step line).Sound := by
  unfold Reader.step
  split
  · next n lines hbody =>
    split
    · exact hr.closeNote hbody _
    · refine Keeps.sound (keeps_body ?_ fun code hcode => ?_) hr
      · rw [allNotes, allNotes, hbody]
      · rw [openMap?, hbody] at hcode
        cases hcode
  · next e hbody =>
    split
    · exact hr
    · exact hr.memberLine hbody _
  · next e hbody =>
    split
    · exact hr
    · exact hr.entryLine hbody _
  · next e depth lines hbody =>
    split
    · exact hr
    · exact hr.documentLine hbody _
  · next hbody =>
    split
    · exact hr
    · unfold readLine
      split
      · exact hr.apply hbody _
      · exact hr

lemma Sound.foldl_step (hr : r.Sound) (lines : List SourceLine) :
    (lines.foldl Reader.step r).Sound :=
  List.foldlRecOn lines Reader.step hr fun _ hr' line _ => hr'.step line

lemma sound_start : Sound {} where
  listed := Nesting.lists_empty
  marks := fun _ h => nomatch h
  ends := fun _ h => nomatch h
  noteCodes := fun _ h => nomatch h
  noteLinks := fun _ h => nomatch h

end Reader

namespace Diagram

/-- The code of the map whose body is still open when a text ends. -/
def openMap? (text : String) : Option String :=
  ((Source.lines text).foldl Reader.step {} : Reader).openMap?

/-- Every part of a diagram refers to parts that it has; the given code is that of a map without an
entity. -/
structure Coherent (d : Diagram) (map? : Option String) : Prop where
  codes : OwnCodes d.entities
  packages : ∀ p ∈ Folder.walkAll d.packages, p.members.Nodup ∧ p.members ⊆ d.entities.keys
  groups : ∀ g ∈ d.groups, g ⊆ d.entities.keys
  marks : ∀ l ∈ d.links, l.source.mark ≠ .none → l.target.mark ≠ .none
  ends : ∀ l ∈ d.links, ∀ code ∈ [l.source.code, l.target.code],
    code ∈ d.entities.keys ∨ code ∈ Relation.freeCodes d.notes ∨ map? = some code
  noteLinks : ∀ n ∈ d.notes, ∀ i, n.target.link? = some i → i < d.links.length

/-- What a diagram that was read refers to, it has. -/
theorem coherent_read {text : String} {d : Diagram} (hread : read text = .ok d) :
    d.Coherent (openMap? text) := by
  have hcodes := ownCodes_read hread
  obtain ⟨-, rfl⟩ := Fault.check_eq_ok_iff.1 hread
  have hr := Reader.sound_start.foldl_step (Source.lines text)
  unfold openMap?
  generalize (Source.lines text).foldl Reader.step {} = r at hr hcodes
  have hfinished : ∀ n ∈ r.notes, n ∈ r.allNotes := by
    intro n hn
    unfold Reader.allNotes
    split
    · exact List.mem_append_left _ hn
    · exact hn
  refine ⟨hcodes, hr.listed.allFolders, hr.listed.groups, hr.marks, fun l hl => ?_,
    fun n hn => hr.noteLinks n (hfinished n hn)⟩
  obtain ⟨hsource, htarget⟩ := hr.ends l hl
  exact List.forall_mem_cons.2 ⟨hsource, List.forall_mem_singleton.2 htarget⟩

/-- A class that is declared twice in a package within a package, a group, a link that is turned
around with a note on it, a link to a free note, and a map whose body is open when the text
ends. -/
theorem coherent_read_open_map :
    let text := "package P \x7b\npackage Q \x7b\nclass A\nclass A\n\x7d\n" ++
      "together \x7b\nclass B\n\x7d\nA <|-- B\nnote on link : n\nnote \"n\" as N\nA -- N\n" ++
      "map M \x7b\nk *--> A"
    ∃ d, Diagram.read text = .ok d ∧ d.entities.keys = ["A", "B"] ∧
      (Folder.walkAll d.packages).map Folder.members = [["B"], ["A"]] ∧ d.groups = [["B"]] ∧
      d.links.map (fun l => (l.source.code, l.target.code)) = [("B", "A"), ("A", "N"), ("M", "A")] ∧
      d.notes.map (fun n => n.target) = [.link (some 0), .free "N"] ∧
      Diagram.openMap? text = some "M" ∧ d.Coherent (some "M") := by
  intro text
  obtain ⟨d, hread, hd⟩ := Fault.exists_of_any (by decide +kernel :
    (read text).toOption.any (fun d =>
      d.entities.keys == ["A", "B"] &&
        (Folder.walkAll d.packages).map Folder.members == [["B"], ["A"]] &&
        d.groups == [["B"]] &&
        d.links.map (fun l => (l.source.code, l.target.code)) ==
          [("B", "A"), ("A", "N"), ("M", "A")] &&
        d.notes.map (fun n => n.target) == [.link (some 0), .free "N"]) = true)
  simp only [Bool.and_eq_true, beq_iff_eq] at hd
  obtain ⟨⟨⟨⟨hkeys, hpackages⟩, hgroups⟩, hlinks⟩, hnotes⟩ := hd
  have hmap : openMap? text = some "M" := by decide +kernel
  have hcoherent := coherent_read hread
  rw [hmap] at hcoherent
  exact ⟨d, hread, hkeys, hpackages, hgroups, hlinks, hnotes, hmap, hcoherent⟩

end Diagram
end Class
end UmlDraw
